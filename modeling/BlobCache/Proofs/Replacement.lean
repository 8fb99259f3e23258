import BlobCache.Proofs.Recency
import BlobCache.Proofs.Rejection
import BlobCache.Proofs.Rounding

/-!
# What a put takes from other keys

A put makes room first and deletes the old entry of its key afterwards.  So it evicts if
all entries, the old one included, and the payload are over the budget together, and
what it evicts is what holds the bytes over the budget; nothing else goes but the old
entry (`Writing.contents_perm`).  In particular it takes nothing from other keys where
everything fits, but it may where the payload fits in the place of the old entry only
(`Site.tryPut_evicts_other`).

In every database that tiers can leave, a put does so whenever its payload can be read
and is within the budget (`Site.tryPut_of_run`).  What it relies on is an invariant of
runs (`Db.Steady`).  Under budgets that 64 bits cannot hold, more may be stored than
the recorded total can count; then the total is a double from there on, it cannot be
read, and no put goes through any longer (`Db.Accounted`).
-/

namespace BlobCache

/-! ## Contents after a put -/

/-- Where everything fits, the pairs of other keys stay. -/
theorem Lru.mem_put {budget : Nat} {key : String} {content : Bytes} {l : Lru}
    {pair : String × Bytes} (hroom : l.held + content.length ≤ budget) (hpair : pair ∈ l)
    (hkey : pair.1 ≠ key) : pair ∈ l.put budget key content := by
  have hall : l.shed 0 = l := by cases l <;> simp [shed]
  rw [put, Nat.sub_eq_zero_of_le hroom, hall]
  exact List.mem_append_left _ (List.mem_filter.mpr ⟨hpair, by simpa using hkey⟩)

section Writing

variable {tier : Tier} {key : String} {file : Readable} {db db' : Db}

/-- **A put leaves what it leaves in a list of keys and payloads**, up to the place of
the new pair. -/
theorem Writing.contents_perm (w : Writing tier key file db db') (hi : db.Intact none)
    (hb : db.Balanced) (hfits : (file.size : Int) ≤ largest) :
    db'.contents.Perm (Lru.put tier.budget key (file.content.take file.size) db.contents) := by
  rw [Lru.put, List.length_take, Nat.min_eq_left w.filling.long, ← w.roomy_contents hi hb hfits]
  exact (w.filling.contents_perm (w.evicted.intact hi)).trans
    (List.perm_append_singleton _ _).symm

end Writing

/-! ## Totals beyond 64 bits -/

namespace Db

/-- No size is negative, and the recorded total is the sum of all sizes, or a double if
64 bits cannot hold the sum. -/
structure Accounted (db : Db) : Prop where
  sizes : ∀ e ∈ db.entryRows, 0 ≤ e.size
  recorded : ∃ total rest, db.globals = some (total :: rest) ∧
    (db.held ≤ largest → total = .integer db.held) ∧
    (largest < db.held → ∃ n, total = .real n)

variable {db db' : Db}

theorem Balanced.accounted (h : db.Balanced) : db.Accounted := by
  obtain ⟨rest, hrest⟩ := h.recorded
  exact ⟨h.sizes, _, rest, hrest, fun _ => rfl, fun hover => absurd h.fits (Int.not_le.mpr hover)⟩

namespace Accounted

theorem balanced (h : db.Accounted) (hfits : db.held ≤ largest) : db.Balanced := by
  obtain ⟨total, rest, hrecorded, hexact, -⟩ := h.recorded
  obtain rfl := hexact hfits
  exact ⟨h.sizes, ⟨rest, hrecorded⟩, hfits⟩

/-- A total that can be read is right. -/
theorem balanced_of_read (h : db.Accounted) {n : Nat} (hread : db.totalSize = .ok n) :
    db.Balanced := by
  refine h.balanced (Int.not_lt.mp fun hover => ?_)
  obtain ⟨_, rest, hrecorded, -, hdouble⟩ := h.recorded
  obtain ⟨m, rfl⟩ := hdouble hover
  simp [totalSize, hrecorded, answered, bind, Except.bind] at hread

/-- It is a matter of the sizes and the recorded totals. -/
theorem congr (h : db.Accounted) (hsizes : ∀ e ∈ db'.entryRows, 0 ≤ e.size)
    (hheld : db'.held = db.held) (hglobals : db'.globals = db.globals) : db'.Accounted := by
  refine ⟨hsizes, ?_⟩
  rw [hheld, hglobals]
  exact h.recorded

theorem entryMoved {e : EntryRow} {top : Int} (h : db.Accounted)
    (hmoved : EntryMoved e top db db') : db'.Accounted := by
  have hsizes := hmoved.forall_rows.mpr ⟨fun x hx _ => h.sizes x hx, h.sizes e hmoved.mem⟩
  exact h.congr hsizes hmoved.held_eq hmoved.globals_eq

end Accounted

/-- A new entry joins the total, whatever its size. -/
theorem Balanced.accounted_entryAdded {row : EntryRow} (h : db.Balanced)
    (hadded : EntryAdded row db db') (hsize : 0 ≤ row.size) : db'.Accounted := by
  by_cases hfits : db.held + row.size ≤ largest
  · exact (h.entryAdded hadded hsize hfits).1.accounted
  · obtain ⟨rest, hrest⟩ := h.recorded
    have hnonneg : 0 ≤ db.held := sum_sizes_nonneg h.sizes
    have hdouble : ∃ n, ((Amount.integer db.held).add row.size).stored = .real n := by
      obtain ⟨m, hm⟩ := Int.eq_ofNat_of_zero_le hnonneg
      obtain ⟨n, hn⟩ := Int.eq_ofNat_of_zero_le hsize
      rw [hm, hn] at hfits ⊢
      exact Amount.stored_add_of_overflow (Int.not_le.mp hfits)
    refine ⟨hadded.forall_rows.mpr ⟨hsize, h.sizes⟩, _, rest.map fun t => (t.add row.size).stored,
      ?_, ?_, fun _ => hdouble⟩
    · rw [hadded.totals, hrest, Option.map_some, List.map_cons]
    · rw [hadded.held_eq]
      exact fun hle => absurd hle hfits

end Db

/-- A put that caches its payload has read the total, so it was right, and it keeps
account of what it adds. -/
theorem Writing.accounted {tier : Tier} {key : String} {file : Readable} {db db' : Db}
    (w : Writing tier key file db db') (h : db.Accounted) : db'.Accounted := by
  have hroomy := w.evicted.balanced (h.balanced_of_read w.recorded)
  have hlisted := (w.filling.balanced_cleared hroomy).1.accounted_entryAdded w.filling.entered
    (Int.natCast_nonneg _)
  obtain ⟨hrows, hglobals⟩ := w.filling.listed_eq
  exact hlisted.congr (hrows ▸ hlisted.sizes) (Db.held_congr hrows) hglobals

/-! ## What always holds -/

namespace Db

/-- What holds of a database all the time, once a tier was opened on it. -/
structure Steady (db : Db) : Prop where
  format : db.format.isSome
  blobs : db.blobs.isSome
  chunks : db.chunks.isSome
  entries : db.entries.isSome
  intact : db.Intact none
  accounted : db.Accounted

variable {db db' : Db}

theorem steady_fresh : fresh.Steady :=
  ⟨rfl, rfl, rfl, rfl, (ready_fresh 0).intact, (ready_fresh 0).balanced.accounted⟩

namespace Steady

theorem globals (h : db.Steady) : db.globals.isSome := by
  obtain ⟨_, _, hrecorded, -⟩ := h.accounted.recorded
  simp [hrecorded]

theorem whole (h : db.Steady) (hrefused : db.refused = []) : db.Whole :=
  ⟨h.globals, h.blobs, h.chunks, h.entries, hrefused⟩

/-- Opening another tier changes nothing. -/
theorem open_eq (h : db.Steady) (location : String) : (db.open location).db = db := by
  have hglobals := open_globals h.globals (fun _ hread => h.accounted.balanced_of_read hread)
    location
  rw [(open_of_format h.format location).1, hglobals]

theorem written {tier : Tier} {key : String} {file : Readable} (h : db.Steady)
    (w : Writing tier key file db db') : db'.Steady := by
  let f := w.filling
  have hcopied := f.copied_of_linked (w.evicted.linked h.intact.linked)
  obtain ⟨hformat, -, hentries⟩ := w.schema
  have hblobs : f.listed.blobs.isSome = f.stocked.blobs.isSome := by
    rw [f.entered.frame]
    exact Option.isSome_map
  have hchunks : f.listed.chunks.isSome = db.chunks.isSome :=
    calc f.listed.chunks.isSome = (f.stocked.without (·.key = key)).chunks.isSome := by
          rw [f.entered.frame]
      _ = w.roomy.chunks.isSome := by
          rw [f.added.frame]
          exact Option.isSome_map
      _ = db.chunks.isSome := by
          rw [w.evicted.left]
          exact Option.isSome_map
  refine ⟨hformat ▸ h.format, ?_, hcopied.there (hchunks ▸ h.chunks), hentries,
    w.intact h.intact, w.accounted h.accounted⟩
  rw [f.frame]
  exact hblobs ▸ f.added.there

theorem moved {e : EntryRow} {top : Int} (h : db.Steady) (hmoved : EntryMoved e top db db') :
    db'.Steady := by
  have hthere := hmoved.there
  have hintact := h.intact.entryMoved hmoved
  have haccounted := h.accounted.entryMoved hmoved
  refine ⟨?_, ?_, ?_, hthere, hintact, haccounted⟩ <;> rw [hmoved.frame]
  · exact h.format
  · exact h.blobs
  · exact h.chunks

/-- A put goes through in a steady database that refuses nothing. -/
theorem tryPut_eq {tier : Tier} {file : Readable} (key path : String) (h : db.Steady)
    (hrefused : db.refused = []) (hheld : db.held ≤ largest) (hopen : tier.isOpen = true)
    (hfits : (file.size : Int) ≤ largest) (hsize : file.size ≤ tier.budget)
    (hlong : file.size ≤ file.content.length) :
    ∃ after count freed,
      tier.tryPut key ⟨path, some file⟩ db = ⟨.ok .cached, after,
        (if tier.budget < db.held + file.size then [.evicted tier.name count freed] else []) ++
          [.cached tier.name key file.size]⟩ ∧
      after.contents.Perm
        (Lru.put tier.budget key (file.content.take file.size) db.contents) := by
  have hbalanced := h.accounted.balanced hheld
  obtain ⟨after, w, hdone⟩ := Tier.tryPut_cached key path (h.whole hrefused) h.intact.linked
    hbalanced hopen hfits hsize hlong
  have hover : tier.budget < weigh db.entryRows + file.size ↔
      (tier.budget : Int) < db.held + file.size := by
    rw [held_eq_weigh hbalanced.sizes]
    omega
  simp only [hover] at hdone
  exact ⟨after, _, _, hdone, w.contents_perm h.intact hbalanced hfits⟩

end Steady

end Db

namespace Site

variable {site : Site}

/-- Every act keeps a database steady. -/
theorem steady_act (h : site.db.Steady) (step : Act) : (site.act step).db.Steady := by
  cases step with
  | «open» budget extractDir =>
      simp only [act, Tier.openOn_db, h.open_eq]
      exact h
  | ask number request =>
      simp only [act]
      cases site.tiers[number]? with
      | none => exact h
      | some tier =>
          rcases tier.serve_cases request site.db with
            ⟨_, _, -, -, ⟨w⟩⟩ | ⟨-, ⟨_, _, hmoved⟩ | hsame⟩
          · exact h.written w
          · exact h.moved hmoved
          · simp only [hsame]
            exact h
  | close number => exact h
  | hinder refused =>
      exact ⟨h.format, h.blobs, h.chunks, h.entries, h.intact.sameRows ⟨rfl, rfl, rfl⟩,
        h.accounted.congr h.accounted.sizes rfl rfl⟩

theorem steady_run (h : site.db.Steady) (acts : List Act) : (site.run acts).db.Steady := by
  induction acts generalizing site with
  | nil => exact h
  | cons step rest ih =>
      rw [run_cons]
      exact ih (steady_act h step)

/-- The first tier makes the tables, and from there on the database is steady. -/
theorem steady_of_opened (location : Location) (budget : Nat) (extractDir : Option String)
    (acts : List Act) : (({ location } : Site).run (.open budget extractDir :: acts)).db.Steady := by
  let opened : Site := { location, db := .fresh, tiers := [{ location, budget, extractDir }] }
  have hopened : opened.db.Steady := Db.steady_fresh
  exact steady_run hopened acts

theorem solvent_of_opened (location : Location) (budget : Nat) (extractDir : Option String)
    (acts : List Act) (hbudgets : ∀ (b : Nat) directory,
      .open b directory ∈ .open budget extractDir :: acts → (b : Int) ≤ largest) :
    (({ location } : Site).run (.open budget extractDir :: acts)).Solvent := by
  let opened : Site := { location, db := .fresh, tiers := [{ location, budget, extractDir }] }
  have hopened : opened.Solvent := by
    refine ⟨(Db.ready_fresh budget).balanced, ?_⟩
    intro tier htier
    rw [List.mem_singleton.mp htier]
    exact hbudgets budget extractDir (List.mem_cons_self ..)
  exact hopened.run fun b directory hmem => hbudgets b directory (List.mem_cons_of_mem _ hmem)

/-- **What a put takes from other keys.**  In whatever state tiers have left a database,
a put of a payload that can be read and is within the budget caches it.  It evicts if
and only if all entries and the payload are over the budget together, where the old
entry of the key counts.  What is left is what a list of keys and payloads leaves, so
the other keys keep their payloads, but for the shortest prefix that holds the bytes
over the budget. -/
theorem tryPut_of_run (location : Location) (budget : Nat) (extractDir : Option String)
    (acts : List Act) :
    let opened := .open budget extractDir :: acts
    let site := ({ location } : Site).run opened
    ∀ tier ∈ site.tiers, tier.isOpen = true → site.db.refused = [] →
    ∀ (key path : String) (file : Readable), file.size ≤ tier.budget →
    file.size ≤ file.content.length →
    ((∀ (b : Nat) directory, .open b directory ∈ opened → (b : Int) ≤ largest) ∨
      (file.size : Int) ≤ largest ∧ site.db.held ≤ largest) →
    let done := tier.tryPut key ⟨path, some file⟩ site.db
    done.result = .ok .cached ∧
    done.db.contents.Perm
      (Lru.put tier.budget key (file.content.take file.size) site.db.contents) ∧
    (site.db.held + file.size ≤ tier.budget →
      ∀ pair ∈ site.db.contents, pair.1 ≠ key → pair ∈ done.db.contents) ∧
    ((∃ count freed, .evicted tier.name count freed ∈ done.log) ↔
      tier.budget < site.db.held + file.size) := by
  intro opened site tier htier hopen hrefused key path file hsize hlong hlimits done
  have hsteady : site.db.Steady := steady_of_opened location budget extractDir acts
  obtain ⟨hfits, hheld⟩ : (file.size : Int) ≤ largest ∧ site.db.held ≤ largest := by
    rcases hlimits with hbudgets | hlimits
    · have hsolvent : site.Solvent := solvent_of_opened location budget extractDir acts hbudgets
      have hbudget := hsolvent.budgets tier htier
      exact ⟨by omega, hsolvent.balanced.fits⟩
    · exact hlimits
  obtain ⟨after, count, freed, hdone, hperm⟩ :=
    hsteady.tryPut_eq key path hrefused hheld hopen hfits hsize hlong
  simp only [done, hdone]
  refine ⟨trivial, hperm, ?_, ?_⟩
  · intro hroom pair hpair hkey
    have hcontents := Db.held_contents_eq hsteady.intact
    have hweigh := Db.held_eq_weigh hsteady.accounted.sizes
    refine hperm.mem_iff.mpr (Lru.mem_put ?_ hpair hkey)
    rw [List.length_take]
    omega
  · by_cases hover : tier.budget < site.db.held + file.size
    · rw [if_pos hover]
      exact ⟨fun _ => hover, fun _ => ⟨count, freed, by simp⟩⟩
    · rw [if_neg hover]
      simp [hover]

/-- Seven bytes are held when a tier of five is asked to replace the entry of "k" by one
byte: "a" has to go for it, and "b" stays. -/
theorem tryPut_of_run_over_budget :
    let put (key : String) (content : Bytes) : Request :=
      .put key ⟨"f", some ⟨content.length, content⟩⟩
    let site := ({ location := .file "x" } : Site).run [.open 9 none,
      .ask 0 (put "a" [1, 2, 3]), .ask 0 (put "k" [4, 5]), .ask 0 (put "b" [6, 7]), .open 5 none]
    let tier : Tier := { location := .file "x", budget := 5 }
    let done := tier.tryPut "k" ⟨"g", some ⟨1, [8]⟩⟩ site.db
    tier ∈ site.tiers ∧ site.db.held = 7 ∧ done.result = .ok .cached ∧
      done.db.contents.Perm [("b", [6, 7]), ("k", [8])] ∧
      ∃ count freed, .evicted tier.name count freed ∈ done.log := by
  intro put site tier done
  have htier : tier ∈ site.tiers := by decide +kernel
  have hrefused : site.db.refused = [] := by decide +kernel
  have hheld : site.db.held = 7 := by decide +kernel
  obtain ⟨hresult, hperm, -, hevicted⟩ := tryPut_of_run (.file "x") 9 none _ tier htier rfl hrefused
    "k" "g" ⟨1, [8]⟩ (by decide) (by decide) (Or.inr ⟨by decide, by rw [hheld]; decide⟩)
  have hlist : Lru.put 5 "k" [8] site.db.contents = [("b", [6, 7]), ("k", [8])] := by
    decide +kernel
  exact ⟨htier, hheld, hresult, hlist ▸ hperm, hevicted.mpr (by rw [hheld]; decide)⟩

/-- A payload that fits in the place of the old entry can nevertheless cost another key
its payload: a tier of four bytes holds two under "a" and two under "k", and two bytes
are put under "k". -/
theorem tryPut_evicts_other :
    ¬ ∀ (location : Location) (budget : Nat) (extractDir : Option String) (acts : List Act),
      let site := ({ location } : Site).run (.open budget extractDir :: acts)
      ∀ tier ∈ site.tiers, tier.isOpen = true → site.db.refused = [] →
      ∀ (key path : String) (file : Readable), file.size ≤ tier.budget →
      file.size ≤ file.content.length →
      let old := ((site.db.entryRows.filter (·.key = key)).map (·.size)).sum
      let done := tier.tryPut key ⟨path, some file⟩ site.db
      site.db.held - old + file.size ≤ tier.budget →
      done.result = .ok .cached ∧
        ∀ pair ∈ site.db.contents, pair.1 ≠ key → pair ∈ done.db.contents := by
  intro hclaim
  let put (key : String) (content : Bytes) : Request :=
    .put key ⟨"f", some ⟨content.length, content⟩⟩
  let acts : List Act := [.ask 0 (put "a" [1, 2]), .ask 0 (put "k" [3, 4])]
  obtain ⟨-, hkept⟩ := hclaim .memory 4 none acts { location := .memory, budget := 4 }
    (by decide +kernel) rfl (by decide +kernel) "k" "f" ⟨2, [5, 6]⟩ (by decide) (by decide)
    (by decide +kernel)
  have hlost := hkept ("a", [1, 2]) (by decide +kernel) (by decide)
  revert hlost
  decide +kernel

end Site

end BlobCache
