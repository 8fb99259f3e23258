import BlobCache.Proofs.Effect
import BlobCache.Proofs.Eviction

/-!
# Ids tell the order of use

A store keeps no times.  A new entry gets the id after the largest one in use, a
promoted entry gets such an id too, and the id of the largest entry is given out again
after this entry was deleted.  So an id by itself says nothing about when it was given
out.  The order of the ids that are in use does: as long as there is an id left, each
insertion and each promotion leaves its entry behind all others, and deletions only
leave entries out.

Whoever keeps the answers of a store can tell which entry a key has
(`History.entryOf`) and which operation used it last (`History.lastUse`), key by key and
without looking into the tables.  The store lists exactly these entries, in the order of
those operations (`Db.evictionCandidates_by_lastUse`).

The proof has two sides, with a list of entries between them.  On one side the list is
what is in the tables (`Db.Lists`), on the other it is what the answers tell
(`History.Ranks`).  An operation puts an entry at its end, moves one there or leaves some
out, on both sides alike (`Db.Lists.run`).
-/

namespace BlobCache

/-- An operation of a store and what it answered. -/
structure Report where
  step : Step
  answer : Except StoreError Answer

/-- What is known of a store from its answers, the latest one first. -/
abbrev History := List Report

/-- The operations of a sequence with their answers. -/
def Db.reports (db : Db) : List Step → List Report
  | [] => []
  | step :: rest => ⟨step, (step.run db).1⟩ :: (step.run db).2.reports rest

/-- What is known of a store after a sequence of operations. -/
def Db.history (db : Db) (steps : List Step) : History := (db.reports steps).reverse

namespace Report

/-- The entry a key has after an operation, if it had `known` before. -/
def update (report : Report) (key : String) (known : Option Entry) : Option Entry :=
  match report.step, report.answer with
  | .addEntry added size blob, .ok (.number id) =>
    if added = key then some { id, key, size, blob } else known
  | .promote id, .ok (.number top) =>
    known.map fun e => if e.id = id then { e with id := top } else e
  | .deleteEntryByKey deleted, .ok _ => known.filter (·.key ≠ deleted)
  | .deleteEntriesThrough id, .ok _ => known.filter (id < ·.id)
  | _, _ => known

/-- Whether an operation inserted or promoted the entry of a key, which had `known`
before. -/
def uses (report : Report) (key : String) (known : Option Entry) : Bool :=
  match report.step, report.answer with
  | .addEntry added _ _, .ok _ => added = key
  | .promote id, .ok _ => known.any (·.id = id)
  | _, _ => false

/-- A key without an entry stays without one until it is used. -/
theorem update_none {report : Report} {key : String} (h : report.uses key none = false) :
    report.update key none = none := by
  obtain ⟨step, answer⟩ := report
  unfold update
  split
  · rename_i added size blob id hstep hanswer
    obtain rfl : step = .addEntry added size blob := hstep
    obtain rfl : answer = .ok (.number id) := hanswer
    exact if_neg (of_decide_eq_false h)
  all_goals rfl

end Report

namespace History

variable {past : History} {report : Report} {entries : List Entry} {key a b : String} {e : Entry}

/-- The entry a key has, as its operations tell. -/
def entryOf (key : String) : History → Option Entry
  | [] => none
  | report :: past => report.update key (entryOf key past)

/-- The position of the last operation that used the key, counted from the first one
on, which has the position 0. -/
def lastUse (key : String) : History → Option Nat
  | [] => none
  | report :: past =>
    if report.uses key (entryOf key past) then some past.length else lastUse key past

/-- The last use of one key was before the last use of another. -/
def UsedBefore (history : History) (a b : String) : Prop :=
  ∃ m n, lastUse a history = some m ∧ lastUse b history = some n ∧ m < n

theorem lastUse_cons_of_uses (h : report.uses key (entryOf key past) = true) :
    lastUse key (report :: past) = some past.length := if_pos h

theorem lastUse_cons_of_unused (h : report.uses key (entryOf key past) = false) :
    lastUse key (report :: past) = lastUse key past := if_neg (by simp [h])

/-- A key that has an entry was used. -/
theorem exists_lastUse {history : History} (h : entryOf key history = some e) :
    ∃ n < history.length, lastUse key history = some n := by
  induction history generalizing e with
  | nil => cases h
  | cons report past ih =>
      cases huses : report.uses key (entryOf key past) with
      | true => exact ⟨past.length, by simp, lastUse_cons_of_uses huses⟩
      | false =>
          cases hknown : entryOf key past with
          | none =>
              rw [hknown] at huses
              rw [entryOf, hknown, Report.update_none huses] at h
              cases h
          | some before =>
              obtain ⟨n, hn, hlast⟩ := ih hknown
              exact ⟨n, by simp only [List.length_cons]; omega,
                (lastUse_cons_of_unused huses).trans hlast⟩

/-- The order of two keys does not change when neither of them is used. -/
theorem UsedBefore.cons (h : past.UsedBefore a b)
    (ha : report.uses a (entryOf a past) = false) (hb : report.uses b (entryOf b past) = false) :
    UsedBefore (report :: past) a b := by
  obtain ⟨m, n, hm, hn, hlt⟩ := h
  exact ⟨m, n, (lastUse_cons_of_unused ha).trans hm, (lastUse_cons_of_unused hb).trans hn, hlt⟩

/-- A key that is used comes after every other key that has an entry. -/
theorem usedBefore_of_uses (ha : entryOf a past = some e)
    (hunused : report.uses a (entryOf a past) = false)
    (huses : report.uses b (entryOf b past) = true) : UsedBefore (report :: past) a b := by
  obtain ⟨m, hm, hlast⟩ := exists_lastUse ha
  exact ⟨m, past.length, (lastUse_cons_of_unused hunused).trans hlast,
    lastUse_cons_of_uses huses, hm⟩

/-- These are the entries that a history tells of, in the order of their last use. -/
structure Ranks (history : History) (entries : List Entry) : Prop where
  known : ∀ key e, entryOf key history = some e ↔ e ∈ entries ∧ e.key = key
  ordered : entries.Pairwise fun x y => history.UsedBefore x.key y.key

namespace Ranks

theorem entryOf_eq (h : past.Ranks entries) (he : e ∈ entries) : entryOf e.key past = some e :=
  (h.known e.key e).mpr ⟨he, rfl⟩

/-- An entry that is used goes to the end of the others. -/
theorem ordered_append (h : past.Ranks entries) (report : Report) (keep : Entry → Bool)
    (hunused : ∀ x ∈ entries, keep x = true → report.uses x.key (some x) = false)
    (huses : report.uses e.key (entryOf e.key past) = true) :
    (entries.filter keep ++ [e]).Pairwise fun x y =>
      UsedBefore (report :: past) x.key y.key := by
  have hfree : ∀ x ∈ entries.filter keep, report.uses x.key (entryOf x.key past) = false := by
    intro x hx
    obtain ⟨hx, hkeep⟩ := List.mem_filter.mp hx
    rw [h.entryOf_eq hx]
    exact hunused x hx hkeep
  refine List.pairwise_append.mpr ⟨?_, List.pairwise_singleton _ _, ?_⟩
  · refine (h.ordered.filter keep).imp_of_mem ?_
    intro x y hx hy hxy
    exact hxy.cons (hfree x hx) (hfree y hy)
  · intro x hx y hy
    obtain rfl := List.mem_singleton.mp hy
    exact usedBefore_of_uses (h.entryOf_eq (List.mem_filter.mp hx).1) (hfree x hx) huses

/-- An insertion puts an entry of a new key at the end. -/
theorem added (h : past.Ranks entries) (hnew : ∀ x ∈ entries, x.key ≠ e.key) :
    Ranks (⟨.addEntry e.key e.size e.blob, .ok (.number e.id)⟩ :: past) (entries ++ [e]) := by
  constructor
  · intro key x
    show (if e.key = key then some { e with key } else entryOf key past) = some x ↔ _
    rw [List.mem_append, List.mem_singleton]
    by_cases hkey : e.key = key
    · subst hkey
      rw [if_pos rfl, Option.some.injEq]
      constructor
      · rintro rfl
        exact ⟨Or.inr rfl, rfl⟩
      · rintro ⟨hx | rfl, hxkey⟩
        · exact absurd hxkey (hnew x hx)
        · rfl
    · rw [if_neg hkey, h.known]
      constructor
      · rintro ⟨hx, hxkey⟩
        exact ⟨Or.inl hx, hxkey⟩
      · rintro ⟨hx | rfl, hxkey⟩
        · exact ⟨hx, hxkey⟩
        · exact absurd hxkey hkey
  · have hordered := h.ordered_append (e := e)
      ⟨.addEntry e.key e.size e.blob, .ok (.number e.id)⟩ (fun _ => true)
      (fun x hx _ => decide_eq_false (hnew x hx).symm) (decide_eq_true rfl)
    rwa [List.filter_true] at hordered

/-- A promotion puts the entry with the id at the end. -/
theorem moved {top : Int} (h : past.Ranks entries) (he : e ∈ entries)
    (honly : ∀ x ∈ entries, x.id = e.id → x = e) :
    Ranks (⟨.promote e.id, .ok (.number top)⟩ :: past)
      (entries.filter (· ≠ e) ++ [{ e with id := top }]) := by
  constructor
  · intro key x
    show ((entryOf key past).map fun y => if y.id = e.id then { y with id := top } else y) =
      some x ↔ _
    simp only [Option.map_eq_some_iff, h.known, List.mem_append, List.mem_filter,
      List.mem_singleton, decide_eq_true_eq]
    constructor
    · rintro ⟨y, ⟨hy, rfl⟩, rfl⟩
      by_cases hid : y.id = e.id
      · obtain rfl := honly y hy hid
        simp
      · rw [if_neg hid]
        exact ⟨Or.inl ⟨hy, fun heq => hid (heq ▸ rfl)⟩, rfl⟩
    · rintro ⟨⟨hx, hne⟩ | rfl, rfl⟩
      · exact ⟨x, ⟨hx, rfl⟩, if_neg fun hid => hne (honly x hx hid)⟩
      · exact ⟨e, ⟨he, rfl⟩, if_pos rfl⟩
  · refine h.ordered_append _ _ ?_ ?_
    · intro x hx hne
      exact decide_eq_false fun hid => of_decide_eq_true hne (honly x hx hid)
    · show (entryOf e.key past).any (·.id = e.id) = true
      rw [h.entryOf_eq he]
      exact decide_eq_true rfl

/-- What uses no key only leaves entries out. -/
theorem kept {keep : Entry → Bool} (h : past.Ranks entries)
    (hupdate : ∀ key known, report.update key known = known.filter keep)
    (hunused : ∀ key known, report.uses key known = false) :
    Ranks (report :: past) (entries.filter keep) := by
  constructor
  · intro key x
    rw [entryOf, hupdate, Option.filter_eq_some_iff, h.known, List.mem_filter, and_right_comm]
  · refine (h.ordered.filter keep).imp ?_
    intro x y hxy
    exact hxy.cons (hunused _ _) (hunused _ _)

/-- Where nothing is used or left out, everything stays as it is. -/
theorem unchanged (h : past.Ranks entries)
    (hupdate : ∀ key known, report.update key known = known)
    (hunused : ∀ key known, report.uses key known = false) : Ranks (report :: past) entries := by
  have hall : ∀ key known, report.update key known = known.filter fun _ => true := by
    intro key known
    rw [hupdate]
    cases known <;> rfl
  have hkept := h.kept hall hunused
  rwa [List.filter_true] at hkept

end Ranks

end History

/-! ## The entries in the tables -/

/-- The row in which an entry is stored. -/
def Entry.row (e : Entry) : EntryRow := ⟨e.id, e.key, e.size, e.blob⟩

theorem Entry.row_injective : Function.Injective Entry.row := by
  rintro ⟨id, key, size, blob⟩ ⟨id', key', size', blob'⟩ h
  simpa [row] using h

/-- What is stored is handed out. -/
theorem Entry.entry_row (e : Entry) : e.row.entry = .ok e :=
  EntryRow.entry_eq_ok.mpr ⟨Int.natCast_nonneg _, rfl⟩

namespace Db

open History (Ranks)

variable {db db' : Db} {entries : List Entry} {e : Entry} {past : History}

/-- These are the entries in the table, in the order of their ids. -/
structure Lists (entries : List Entry) (db : Db) : Prop where
  there : db.entries.isSome
  rows : db.entryRows = entries.map Entry.row

namespace Lists

theorem mem_rows (h : db.Lists entries) (he : e ∈ entries) : e.row ∈ db.entryRows :=
  h.rows ▸ List.mem_map_of_mem he

theorem evictionCandidates_eq (h : db.Lists entries) :
    db.evictionCandidates = entries.map .ok := by
  rw [evictionCandidates_of_entries h.there, h.rows, List.map_map]
  exact List.map_congr_left fun e _ => e.entry_row

theorem nodup_keys (h : db.Lists entries) : (entries.map (·.key)).Nodup := by
  have hkeys := db.nodup_keys
  rwa [h.rows, List.map_map] at hkeys

/-- No two entries have one id. -/
theorem eq_of_id (h : db.Lists entries) {x : Entry} (hx : x ∈ entries) (he : e ∈ entries)
    (hid : x.id = e.id) : x = e :=
  Entry.row_injective (entry_eq_of_id (h.mem_rows hx) (h.mem_rows he) hid)

theorem congr (h : db.Lists entries) (hentries : db'.entries = db.entries) :
    db'.Lists entries :=
  ⟨hentries ▸ h.there, (entryRows_congr hentries).trans h.rows⟩

/-- A deletion keeps the entries whose rows are not to go. -/
theorem without {p : EntryRow → Bool} {keep : Entry → Bool} (h : db.Lists entries)
    (hkeep : ∀ e : Entry, keep e = !p e.row) : (db.without p).Lists (entries.filter keep) := by
  have hrows : ((fun r => !p r) ∘ Entry.row) = keep := funext fun e => (hkeep e).symm
  refine ⟨by simpa [Db.without] using h.there, ?_⟩
  rw [entryRows_without, h.rows, List.filter_map, hrows]

/-- While there is an id left, a new entry comes last. -/
theorem added (h : db.Lists entries) (hnext : db.HasNextId) (hadded : EntryAdded e.row db db')
    (hid : freshId? db.entryIds = some e.id) : db'.Lists (entries ++ [e]) := by
  have hlast : ∀ x ∈ db.entryRows, x.id < e.id := by
    intro x hx
    exact hnext.lt_of_freshId? hid x.id (mem_entryIds.mpr ⟨x, hx, rfl⟩)
  refine ⟨hadded.there, ?_⟩
  rw [hadded.rows, Table.place_last hlast, h.rows, List.map_append]
  rfl

/-- A promoted entry comes last. -/
theorem moved {x : EntryRow} {top : Int} (h : db.Lists entries)
    (hmoved : EntryMoved x top db db') :
    ∃ e ∈ entries, e.row = x ∧
      db'.Lists (entries.filter (· ≠ e) ++ [{ e with id := top }]) := by
  obtain ⟨e, he, rfl⟩ := List.mem_map.mp (h.rows ▸ hmoved.mem)
  refine ⟨e, he, rfl, hmoved.there, ?_⟩
  have hothers : ((fun r => decide (r ≠ e.row)) ∘ Entry.row) = fun x => decide (x ≠ e) := by
    funext x
    simp [Entry.row_injective.eq_iff]
  rw [hmoved.rows, h.rows, List.filter_map, hothers, List.map_append]
  rfl

/-- **What an operation answers tells what it does to the entries**, while there is an
id left. -/
theorem run (h : db.Lists entries) (hranks : past.Ranks entries) (hnext : db.HasNextId)
    (step : Step) :
    ∃ entries', (step.run db).2.Lists entries' ∧
      Ranks (⟨step, (step.run db).1⟩ :: past) entries' := by
  cases happly : step.apply db with
  | error cause =>
      have hrun : step.run db = (.error cause, db) := by simp only [Step.run, happly]
      rw [hrun]
      -- what fails changes nothing, and counts for nothing in the history
      refine ⟨entries, h, hranks.unchanged ?_ ?_⟩
      · intro key known
        cases step <;> rfl
      · intro key known
        cases step <;> rfl
  | ok done =>
      obtain ⟨answer, after⟩ := done
      have hrun : step.run db = (.ok answer, after) := by simp only [Step.run, happly]
      have heffect : step.Effect db after := by
        have hdone := step.effect db
        rwa [hrun] at hdone
      rw [hrun]
      cases step with
      | addEntry key size blob =>
          simp only [Step.apply, except_bind_eq_ok] at happly
          obtain ⟨⟨id, _⟩, hadd, ⟨⟩⟩ := happly
          obtain ⟨-, hadded, hid⟩ := addEntry_ok hadd
          let e : Entry := ⟨id, key, size, blob⟩
          have hnew : ∀ x ∈ entries, x.key ≠ e.key := by
            intro x hx
            exact (hadded.fresh x.row (h.mem_rows hx)).2
          exact ⟨entries ++ [e], h.added hnext hadded hid, hranks.added hnew⟩
      | promote id =>
          simp only [Step.apply, except_bind_eq_ok] at happly
          obtain ⟨⟨top, _⟩, hpromote, ⟨⟩⟩ := happly
          obtain ⟨x, rfl, hmoved⟩ := promote_ok hpromote
          obtain ⟨e, he, rfl, hlists⟩ := h.moved hmoved
          exact ⟨_, hlists, hranks.moved he fun x hx => h.eq_of_id hx he⟩
      | deleteEntryByKey key =>
          simp only [Step.apply, except_bind_eq_ok] at happly
          obtain ⟨⟨found, _⟩, hdelete, ⟨⟩⟩ := happly
          obtain ⟨n, hdeleted, -⟩ := deleteEntryByKey_ok hdelete
          obtain ⟨-, rfl⟩ := deleteEntries_eq hdeleted
          have hkeep : ∀ e : Entry, decide (e.key ≠ key) = !decide (e.row.key = key) :=
            fun e => decide_not
          exact ⟨_, h.without hkeep, hranks.kept (fun _ _ => rfl) fun _ _ => rfl⟩
      | deleteEntriesThrough id =>
          simp only [Step.apply, except_bind_eq_ok] at happly
          obtain ⟨⟨n, _⟩, hdelete, ⟨⟩⟩ := happly
          obtain ⟨-, rfl⟩ := deleteEntries_eq (answered_eq_ok.mp hdelete)
          have hkeep : ∀ e : Entry, decide (id < e.id) = !decide (e.row.id ≤ id) :=
            fun e => (decide_eq_decide.mpr Int.not_le.symm).trans decide_not
          exact ⟨_, h.without hkeep, hranks.kept (fun _ _ => rfl) fun _ _ => rfl⟩
      | _ =>
          -- the other operations neither use a key nor delete an entry
          have hsame := heffect.entries_eq (fun _ => rfl) (by simp) (by simp)
          exact ⟨entries, h.congr hsame, hranks.unchanged (fun _ _ => rfl) fun _ _ => rfl⟩

/-- **What a sequence of operations answers tells the entries it leaves.** -/
theorem after {steps : List Step} (h : db.Lists entries) (hranks : past.Ranks entries)
    (hnext : ∀ k < steps.length, (db.after (steps.take k)).HasNextId) :
    ∃ entries', (db.after steps).Lists entries' ∧
      Ranks ((db.reports steps).reverse ++ past) entries' := by
  induction steps generalizing db entries past with
  | nil => exact ⟨entries, h, hranks⟩
  | cons step rest ih =>
      obtain ⟨mid, hmid, hranks'⟩ := h.run hranks (hnext 0 (by simp)) step
      rw [reports, List.reverse_cons, List.append_assoc, List.singleton_append]
      refine ih hmid hranks' ?_
      intro k hk
      exact hnext (k + 1) (by simpa using hk)

end Lists

/-- **The order of ids is the order of use.**  In a store that was opened at a new
location, and of whose entries none had the largest id before any of the operations, all
entries can be read, and they are those that the answers tell of, each key once, in the
order of the last insertion or promotion of their keys. -/
theorem evictionCandidates_by_lastUse (location : String) {steps : List Step}
    (hnext : ∀ k < steps.length,
      ((Db.empty.open location).db.after (steps.take k)).HasNextId) :
    let store := (Db.empty.open location).db
    let history := store.history steps
    ∃ entries : List Entry, (store.after steps).evictionCandidates = entries.map .ok ∧
      (∀ key e, history.entryOf key = some e ↔ e ∈ entries ∧ e.key = key) ∧
      (entries.map (·.key)).Nodup ∧
      entries.Pairwise fun x y => history.UsedBefore x.key y.key := by
  intro store history
  have hstart : store.Lists [] := ⟨rfl, rfl⟩
  have hnothing : History.Ranks [] [] := ⟨by simp [History.entryOf], .nil⟩
  obtain ⟨entries, hlists, hranks⟩ := hstart.after hnothing hnext
  rw [List.append_nil] at hranks
  exact ⟨entries, hlists.evictionCandidates_eq, hranks.known, hlists.nodup_keys, hranks.ordered⟩

/-- The third key is promoted though its id is the largest, and the first one after it; the
first key is deleted, and its id goes to the fourth.  A promotion of an id that is not
there and a second insertion of a key fail in between and count for nothing. -/
theorem evictionCandidates_by_lastUse_reused :
    let store := (Db.empty.open "x").db
    let steps : List Step := [.addBlob 1, .addEntry "a" 1 1, .addEntry "b" 2 1,
      .addEntry "c" 3 1, .promote 3, .promote 9, .promote 1, .deleteEntryByKey "a",
      .addEntry "d" 4 1, .promote 2, .addEntry "d" 5 1, .deleteEntriesThrough 4]
    (store.after steps).evictionCandidates = [.ok ⟨5, "d", 4, 1⟩, .ok ⟨6, "b", 2, 1⟩] ∧
      (store.history steps).entryOf "a" = none ∧ (store.history steps).UsedBefore "d" "b" := by
  intro store steps
  have hnext : ∀ k < steps.length, (store.after (steps.take k)).HasNextId := by decide +kernel
  obtain ⟨entries, hcandidates, hknown, -, hordered⟩ := evictionCandidates_by_lastUse "x" hnext
  have hlist : (store.after steps).evictionCandidates =
      [⟨5, "d", 4, 1⟩, ⟨6, "b", 2, 1⟩].map .ok := by decide +kernel
  obtain rfl : entries = [⟨5, "d", 4, 1⟩, ⟨6, "b", 2, 1⟩] :=
    List.map_injective_iff.mpr (fun _ _ => Except.ok.inj) (hcandidates.symm.trans hlist)
  have habsent : ∀ e ∈ ([⟨5, "d", 4, 1⟩, ⟨6, "b", 2, 1⟩] : List Entry), e.key ≠ "a" := by
    decide
  refine ⟨hlist, Option.eq_none_iff_forall_ne_some.mpr ?_, by simpa using hordered⟩
  intro e he
  obtain ⟨hmem, hkey⟩ := (hknown "a" e).mp he
  exact habsent e hmem hkey

end Db

end BlobCache
