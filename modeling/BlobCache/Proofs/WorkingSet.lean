import BlobCache.Proofs.Recency

/-!
# The working set stays

What was used last is evicted last.  If the payload of a key and all payloads that
were cached or found under other keys since it was used fit into the budget together,
the key is found, whatever the database held before and however often the other keys
were replaced (`Tier.tryGet_of_used`).

The proof follows the entry of the key.  What stands behind it in the order of use
was used after it, so it is no larger than those payloads (`Db.Recent`); and an
eviction stops before the entry, because what stands in front of it is enough
(`Writing.rest_of_fits`).

A get moves the entry it finds and needs an id for that.  With the largest id in use
it fails, and the payload is not found (`Tier.tryGet_of_last_id`).
-/

namespace BlobCache

/-! ## Exchanges -/

/-- A request to a tier, its answer and the database afterwards. -/
structure Exchange where
  request : Request
  reply : Reply
  after : Db

namespace Exchange

/-- The key that is used and its payload: a put is of use when it caches, a get when
it finds. -/
def used? (x : Exchange) : Option (String × Bytes) :=
  match x.request, x.reply with
  | .put key source, .stored (.ok .cached) =>
    source.opened.map fun file => (key, file.content.take file.size)
  | .get _ key, .found (.ok (some found)) => some (key, found.content)
  | _, _ => none

/-- Whether a payload was cached under `key`. -/
def caches (key : String) (x : Exchange) : Bool :=
  match x.request, x.reply with
  | .put other _, .stored (.ok .cached) => other = key
  | _, _ => false

/-- The bytes that are used under other keys than `key`. -/
def load (key : String) (x : Exchange) : Nat :=
  match x.used? with
  | some (other, payload) => if other = key then 0 else payload.length
  | none => 0

end Exchange

namespace Tier

/-- Ask a tier once. -/
def exchange (tier : Tier) (request : Request) (db : Db) : Exchange :=
  ⟨request, (tier.serve request db).1, (tier.serve request db).2⟩

/-- Ask a tier several times. -/
def exchanges (tier : Tier) (db : Db) : List Request → List Exchange
  | [] => []
  | request :: rest =>
    tier.exchange request db :: tier.exchanges (tier.exchange request db).after rest

/-- The database after several requests. -/
def serveAll (tier : Tier) (db : Db) (requests : List Request) : Db :=
  requests.foldl (fun db request => (tier.exchange request db).after) db

@[simp] theorem serveAll_cons (tier : Tier) (db : Db) (request : Request) (rest : List Request) :
    tier.serveAll db (request :: rest) = tier.serveAll (tier.exchange request db).after rest :=
  rfl

variable {tier : Tier} {db : Db}

/-- What is found is found by a tier that is open. -/
theorem isOpen_of_found {directory : Option String} {key : String} {found : Extracted}
    (h : (tier.tryGet directory key db).result = .ok (some found)) : tier.isOpen = true := by
  by_contra hclosed
  simp [tryGet, hclosed] at h

/-- **What an exchange can be**: a put that caches, a get that finds, or nothing. -/
theorem exchange_cases (tier : Tier) (request : Request) (db : Db) :
    (∃ key file, (tier.exchange request db).used? = some (key, file.content.take file.size) ∧
      (∀ k, (tier.exchange request db).caches k = decide (key = k)) ∧ tier.isOpen = true ∧
      file.size ≤ tier.budget ∧
      Nonempty (Writing tier key file db (tier.exchange request db).after)) ∨
    (∃ e top, (tier.exchange request db).used? = some (e.key, db.payload e) ∧
      tier.isOpen = true ∧ ((db.payload e).length : Int) = e.size ∧
      Db.EntryMoved e top db (tier.exchange request db).after) ∨
    ((tier.exchange request db).used? = none ∧ (tier.exchange request db).after = db) := by
  cases request with
  | put key source =>
      rcases tier.tryPut_cases key source db with
        ⟨file, hopened, hsize, hopen, hresult, hwriting⟩ | ⟨hresult, hdb⟩
      · refine Or.inl ⟨key, file, ?_, ?_, hopen, hsize, hwriting⟩
        · simp [exchange, serve, Exchange.used?, hresult, hopened]
        · simp [exchange, serve, Exchange.caches, hresult]
      · refine Or.inr (Or.inr ⟨?_, hdb⟩)
        simp only [exchange, serve, Exchange.used?]
        split
        · rename_i hcached
          exact absurd (Reply.stored.inj hcached) hresult
        · rename_i hkind _
          cases hkind
        · rfl
  | get directory key =>
      rcases tier.tryGet_cases directory key db with
        ⟨e, top, d, hkey, hsize, -, hmoved, hresult, hlength⟩ | ⟨hresult, hdb⟩
      · refine Or.inr (Or.inl ⟨e, top, ?_, isOpen_of_found hresult, ?_, hmoved⟩)
        · simp [exchange, serve, Exchange.used?, hresult, hkey, Db.payload]
        · rw [Db.payload]
          omega
      · refine Or.inr (Or.inr ⟨?_, hdb⟩)
        simp only [exchange, serve, Exchange.used?]
        split
        · rename_i hkind _
          cases hkind
        · rename_i hfound
          exact absurd (Reply.found.inj hfound) (hresult _)
        · rfl
  | stats => exact Or.inr (Or.inr ⟨rfl, tier.stats_db db⟩)

end Tier

/-! ## What is needed all the time -/

namespace Db

/-- The tables are there, every reference is kept, and the recorded total is right. -/
structure Sound (db : Db) : Prop where
  whole : db.Whole
  linked : db.Linked
  balanced : db.Balanced

theorem sound_fresh : fresh.Sound where
  whole := (ready_fresh 0).whole
  linked := (ready_fresh 0).intact.linked
  balanced := (ready_fresh 0).balanced

/-- Whatever a tier is asked for, its database stays sound. -/
theorem Sound.exchange {tier : Tier} {db : Db} (h : db.Sound)
    (hbudget : (tier.budget : Int) ≤ largest) (request : Request) :
    (tier.exchange request db).after.Sound := by
  rcases tier.exchange_cases request db with
    ⟨_, _, -, -, -, hsize, ⟨w⟩⟩ | ⟨_, _, -, -, -, hmoved⟩ | ⟨-, hsame⟩
  · exact ⟨w.whole h.whole h.linked, w.linked h.linked, (w.held_le h.balanced hbudget hsize).1⟩
  · exact ⟨hmoved.whole h.whole, h.linked.entryMoved hmoved, (h.balanced.entryMoved hmoved).1⟩
  · rw [hsame]
    exact h

theorem Sound.serveAll {tier : Tier} {db : Db} (h : db.Sound)
    (hbudget : (tier.budget : Int) ≤ largest) (requests : List Request) :
    (tier.serveAll db requests).Sound := by
  induction requests generalizing db with
  | nil => exact h
  | cons request rest ih =>
      rw [Tier.serveAll_cons]
      exact ih (h.exchange hbudget request)

end Db

/-! ## What stands behind an entry -/

theorem weigh_filter_le (p : EntryRow → Bool) (rows : List EntryRow) :
    weigh (rows.filter p) ≤ weigh rows := by
  induction rows with
  | nil => exact Nat.le_refl _
  | cons e rows ih =>
      rw [List.filter_cons]
      split <;> simp only [weigh_cons] <;> omega

/-- What an eviction leaves keeps its payload. -/
theorem Evicted.payload_rest {required : Nat} {taken rest : List EntryRow} {db db' : Db}
    (h : Evicted required taken rest db db') {e : EntryRow} (he : e ∈ rest) :
    db'.payload e = db.payload e := by
  have hnodup := db.nodup_entryRows
  rw [h.rows] at hnodup
  have hnot : e ∉ taken := by
    intro htaken
    exact (List.nodup_append.mp hnodup).2.2 e htaken e he rfl
  rw [h.left]
  exact Db.payload_without (by simp [h.rows, he]) (by simpa using hnot)

namespace Writing

variable {tier : Tier} {key : String} {file : Readable} {db db' : Db}

/-- Where there is an id after the largest one, the new entry is the last one. -/
theorem rows_eq (w : Writing tier key file db db') (hids : db.HasNextId) :
    db'.entryRows = (w.rest.filter fun e => !decide (e.key = key)) ++ [w.filling.entry] := by
  have hroomy : ∀ i ∈ w.roomy.entryIds, i ≤ largest - 1 := by
    intro i hi
    rw [w.evicted.left] at hi
    exact Int.le_sub_one_of_lt (hids i (Db.mem_entryIds_of_without hi))
  have hlast := (w.filling.id_last (by decide) (by decide) hroomy).1
  rw [w.filling.entryRows_eq, Table.place_last, w.evicted.rows_left]
  · rfl
  · intro e he
    obtain ⟨he, hkey⟩ := List.mem_filter.mp he
    exact hlast e he (by simpa using hkey)

/-- **An eviction stops before an entry**, if it and what stands behind it fit in
together with the new payload. -/
theorem rest_of_fits (w : Writing tier key file db db') (h : db.Balanced)
    (hbudget : (tier.budget : Int) ≤ largest) (hsize : file.size ≤ tier.budget)
    {front back : List EntryRow} {e : EntryRow} (hrows : db.entryRows = front ++ e :: back)
    (hfits : weigh (e :: back) + file.size ≤ tier.budget) :
    ∃ left, w.rest = left ++ e :: back := by
  have hrequired := w.required_eq h (by omega)
  have hsplit := w.evicted.rows.symm.trans hrows
  rcases List.append_eq_append_iff.mp hsplit with ⟨left, -, hrest⟩ | ⟨more, htaken, hrest⟩
  · exact ⟨left, hrest⟩
  · cases more with
    | nil => exact ⟨[], hrest.symm⟩
    | cons x more =>
        -- the rows in front would have been enough
        have hshort := w.evicted.shortest front.length (by simp [htaken])
        rw [htaken, List.take_left, hrequired, hrows, weigh_append] at hshort
        omega

end Writing

namespace Db

variable {tier : Tier} {key other : String} {payload : Bytes} {later : Nat} {file : Readable}
  {db db' : Db} {e : EntryRow} {top : Int}

/-- The payload is stored under `key`, and behind its entry there are no more than
`later` bytes. -/
def Recent (key : String) (payload : Bytes) (later : Nat) (db : Db) : Prop :=
  ∃ front e back, db.entryRows = front ++ e :: back ∧ e.key = key ∧ db.payload e = payload ∧
    e.size = payload.length ∧ weigh back ≤ later

/-- What was put last is last. -/
theorem recent_of_writing (w : Writing tier key file db db') (h : db.Sound)
    (hids : db.HasNextId) : db'.Recent key (file.content.take file.size) 0 := by
  refine ⟨_, w.filling.entry, [], w.rows_eq hids, rfl,
    w.filling.payload_entry (w.evicted.linked h.linked), ?_, Nat.le_refl _⟩
  have hlong := w.filling.long
  rw [List.length_take, Nat.min_eq_left hlong]
  rfl

/-- What was found last is last. -/
theorem recent_of_moved (hmoved : EntryMoved e top db db')
    (hlength : ((db.payload e).length : Int) = e.size) :
    db'.Recent e.key (db.payload e) 0 :=
  ⟨_, { e with id := top }, [], hmoved.rows, rfl, hmoved.payload_eq _, hlength.symm,
    Nat.le_refl _⟩

namespace Recent

/-- A put under another key stays behind the entry. -/
theorem written (hrecent : db.Recent key payload later) (w : Writing tier other file db db')
    (h : db.Sound) (hids : db.HasNextId) (hbudget : (tier.budget : Int) ≤ largest)
    (hsize : file.size ≤ tier.budget) (hother : other ≠ key)
    (hfits : payload.length + (later + file.size) ≤ tier.budget) :
    db'.Recent key payload (later + file.size) := by
  obtain ⟨front, e, back, hrows, hkey, hpayload, hlength, hback⟩ := hrecent
  obtain ⟨left, hrest⟩ : ∃ left, w.rest = left ++ e :: back := by
    apply w.rest_of_fits h.balanced hbudget hsize hrows
    rw [weigh_cons]
    omega
  have hekey : e.key ≠ other := by
    rintro rfl
    exact hother hkey
  have hmem : e ∈ w.rest := by simp [hrest]
  have hkept : db'.payload e = payload := by
    rw [w.filling.payload_kept (w.evicted.linked h.linked) (w.evicted.rows_left ▸ hmem) hekey,
      w.evicted.payload_rest hmem, hpayload]
  refine ⟨left.filter fun x => !decide (x.key = other), e,
    (back.filter fun x => !decide (x.key = other)) ++ [w.filling.entry], ?_, hkey, hkept,
    hlength, ?_⟩
  · rw [w.rows_eq hids, hrest, List.filter_append, List.filter_cons_of_pos (by simpa using hekey),
      List.append_assoc, List.cons_append]
  · have hfilter := weigh_filter_le (fun x => !decide (x.key = other)) back
    have hentry : weigh [w.filling.entry] = file.size := by simp [Filling.entry]
    rw [weigh_append, hentry]
    omega

/-- What is found under another key moves behind the entry. -/
theorem moved (hrecent : db.Recent key payload later) {x : EntryRow}
    (hmoved : EntryMoved x top db db') :
    db'.Recent key payload (later + if x.key = key then 0 else x.size.toNat) := by
  obtain ⟨front, e, back, hrows, hkey, hpayload, hlength, hback⟩ := hrecent
  have hmem : e ∈ db.entryRows := by simp [hrows]
  by_cases hsame : x.key = key
  · obtain rfl := entry_eq_of_key hmoved.mem hmem (hsame.trans hkey.symm)
    exact ⟨_, { x with id := top }, [], hmoved.rows, hkey, (hmoved.payload_eq _).trans hpayload,
      hlength, Nat.zero_le _⟩
  · have hne : e ≠ x := by
      rintro rfl
      exact hsame hkey
    refine ⟨front.filter (· ≠ x), e, back.filter (· ≠ x) ++ [{ x with id := top }], ?_, hkey,
      (hmoved.payload_eq _).trans hpayload, hlength, ?_⟩
    · rw [hmoved.rows, hrows, List.filter_append, List.filter_cons_of_pos (by simpa using hne),
        List.append_assoc, List.cons_append]
    · have hfilter := weigh_filter_le (· ≠ x) back
      rw [weigh_append, weigh_cons, weigh_nil, if_neg hsame]
      simp only
      omega

/-- **One exchange.**  What is used under other keys stands behind the entry then. -/
theorem exchange (hrecent : db.Recent key payload later) (h : db.Sound) (hids : db.HasNextId)
    (hbudget : (tier.budget : Int) ≤ largest) {request : Request}
    (hkept : (tier.exchange request db).caches key = false)
    (hfits : payload.length + (later + (tier.exchange request db).load key) ≤ tier.budget) :
    (tier.exchange request db).after.Recent key payload
      (later + (tier.exchange request db).load key) := by
  rcases tier.exchange_cases request db with
    ⟨other, file, hused, hcaches, -, hsize, ⟨w⟩⟩ | ⟨x, top, hused, -, hlength, hmoved⟩ |
    ⟨hused, hsame⟩
  · have hother : other ≠ key := by simpa [hcaches] using hkept
    have hload : (tier.exchange request db).load key = file.size := by
      have hlong := w.filling.long
      simp only [Exchange.load, hused, if_neg hother, List.length_take]
      omega
    rw [hload] at hfits ⊢
    exact hrecent.written w h hids hbudget hsize hother hfits
  · have hload : (tier.exchange request db).load key =
        if x.key = key then 0 else x.size.toNat := by
      simp only [Exchange.load, hused, ← hlength, Int.toNat_natCast]
    rw [hload]
    exact hrecent.moved hmoved
  · have hload : (tier.exchange request db).load key = 0 := by simp only [Exchange.load, hused]
    rw [hload, hsame]
    exact hrecent

/-- **A run of exchanges.** -/
theorem exchanges {requests : List Request} (hrecent : db.Recent key payload later)
    (h : db.Sound) (hbudget : (tier.budget : Int) ≤ largest) (hid : db.HasNextId)
    (hids : ∀ x ∈ tier.exchanges db requests, x.after.HasNextId)
    (hkept : ∀ x ∈ tier.exchanges db requests, x.caches key = false)
    (hfits : payload.length +
      (later + ((tier.exchanges db requests).map (·.load key)).sum) ≤ tier.budget) :
    (tier.serveAll db requests).HasNextId ∧ ∃ later', (tier.serveAll db requests).Recent key
      payload later' := by
  induction requests generalizing db later with
  | nil => exact ⟨hid, later, hrecent⟩
  | cons request rest ih =>
      simp only [Tier.exchanges, List.forall_mem_cons] at hids hkept
      simp only [Tier.exchanges, List.map_cons, List.sum_cons] at hfits
      have hnext := hrecent.exchange h hid hbudget hkept.1 (by omega)
      rw [Tier.serveAll_cons]
      exact ih hnext (h.exchange hbudget request) hids.1 hids.2 hkept.2 (by omega)

/-- What is stored under a key is found there, if an id is left for it. -/
theorem tryGet_eq (hrecent : db.Recent key payload later) (h : db.Sound) (hid : db.HasNextId)
    (hopen : tier.isOpen = true) (directory : String) :
    (tier.tryGet (some directory) key db).result = .ok (some ⟨directory, payload⟩) := by
  obtain ⟨front, e, back, hrows, hkey, rfl, hlength, -⟩ := hrecent
  have hmem : e ∈ db.entryRows := by simp [hrows]
  have hfind : db.entryRows.find? (·.key = key) = some e := hkey ▸ find?_key_of_mem hmem
  have hids : ∀ x ∈ db.entryRows, x.id < largest := fun x hx =>
    hid x.id (mem_entryIds.mpr ⟨x, hx, rfl⟩)
  exact (Tier.tryGet_hit directory hopen h.whole hids hfind hlength.symm).1

end Recent

/-- What is used is last then. -/
theorem recent_of_used {request : Request} (h : db.Sound) (hid : db.HasNextId)
    (hused : (tier.exchange request db).used? = some (key, payload)) :
    tier.isOpen = true ∧ (tier.exchange request db).after.Recent key payload 0 := by
  rcases tier.exchange_cases request db with
    ⟨_, _, hcached, -, hopen, -, ⟨w⟩⟩ | ⟨e, _, hfound, hopen, hlength, hmoved⟩ | ⟨hnone, -⟩
  · cases hcached.symm.trans hused
    exact ⟨hopen, recent_of_writing w h hid⟩
  · cases hfound.symm.trans hused
    exact ⟨hopen, recent_of_moved hmoved hlength⟩
  · cases hnone.symm.trans hused

end Db

namespace Tier

/-- **The working set stays.**  On a sound database, a payload was cached or found
under a key, and none was cached under it since.  If it and all that was used under
other keys since fit into the budget together, it is found, as long as there are ids
after the largest one all that time. -/
theorem tryGet_of_used {tier : Tier} {start : Db} (hstart : start.Sound)
    (hbudget : (tier.budget : Int) ≤ largest) (before : List Request) (request : Request)
    (between : List Request) {key : String} {payload : Bytes} :
    let now := tier.serveAll start before
    let first := tier.exchange request now
    let later := tier.exchanges first.after between
    first.used? = some (key, payload) →
    (∀ db ∈ now :: (first :: later).map (·.after), db.HasNextId) →
    (∀ x ∈ later, x.caches key = false) →
    payload.length + (later.map (·.load key)).sum ≤ tier.budget →
    ∀ directory, (tier.tryGet (some directory) key (tier.serveAll first.after between)).result =
      .ok (some ⟨directory, payload⟩) := by
  intro now first later hused hids hkept hfits directory
  simp only [List.map_cons, List.forall_mem_cons, List.forall_mem_map] at hids
  obtain ⟨hnow, hfirst, hlater⟩ := hids
  have hsound := hstart.serveAll hbudget before
  obtain ⟨hopen, hrecent⟩ := Db.recent_of_used hsound hnow hused
  have hafter := hsound.exchange hbudget request
  obtain ⟨hid, _, hend⟩ := hrecent.exchanges hafter hbudget hfirst hlater hkept
    (by rwa [Nat.zero_add])
  exact hend.tryGet_eq (hafter.serveAll hbudget between) hid hopen directory

/-- Seven bytes are held when a tier of five is opened.  "k" is put, and "a" and "b"
are used in front of it; "a" is replaced, and for "k" only what is too large is put. -/
theorem tryGet_of_used_replaced :
    let put (key : String) (content : Bytes) : Request :=
      .put key ⟨"f", some ⟨content.length, content⟩⟩
    let large : Tier := { location := .file "x", budget := 9 }
    let tier : Tier := { location := .file "x", budget := 5 }
    let start := large.serveAll .fresh [put "o" [1, 2, 3, 4], put "p" [5, 6, 7]]
    let now := tier.serveAll start [put "a" [1]]
    let first := tier.exchange (put "k" [8, 9]) now
    let between := [.get (some "tmp") "a", put "a" [2], .get (some "tmp") "k", put "b" [3],
      put "k" [1, 2, 3, 4, 5, 6]]
    start.held = 7 ∧ first.used? = some ("k", [8, 9]) ∧
      ((tier.exchanges first.after between).map (·.load "k")).sum = 3 ∧
      (tier.tryGet (some "tmp") "k" (tier.serveAll first.after between)).result =
        .ok (some ⟨"tmp", [8, 9]⟩) := by
  intro put large tier start now first between
  have hstart : start.Sound := Db.sound_fresh.serveAll (by decide) _
  exact ⟨by decide +kernel, by decide +kernel, by decide +kernel,
    tryGet_of_used hstart (by decide) [put "a" [1]] (put "k" [8, 9]) between (by decide +kernel)
      (by decide +kernel) (by decide +kernel) (by decide +kernel) "tmp"⟩

/-- A payload that was put as the last entry is not found if its id is the largest
there is, although it fits and nothing else was used. -/
theorem tryGet_of_last_id :
    ¬ ∀ (tier : Tier) (start : Db) (before between : List Request) (request : Request)
      (key : String) (payload : Bytes) (directory : String),
      let now := tier.serveAll start before
      let first := tier.exchange request now
      let later := tier.exchanges first.after between
      start.Sound → (tier.budget : Int) ≤ largest → first.used? = some (key, payload) →
      (∀ x ∈ later, x.caches key = false) →
      payload.length + (later.map (·.load key)).sum ≤ tier.budget →
      (tier.tryGet (some directory) key (tier.serveAll first.after between)).result =
        .ok (some ⟨directory, payload⟩) := by
  intro hclaim
  let tier : Tier := { location := .file "x", budget := 9 }
  let start : Db := { Db.single "x" 1 [1] 1 with
    entries := some ⟨[⟨9223372036854775806, "x", 1, 1⟩], by simp, by simp⟩ }
  let request : Request := .put "k" ⟨"g", some ⟨2, [2, 3]⟩⟩
  let between : List Request := [.get (some "tmp") "z"]
  have hstart : start.Sound :=
    ⟨⟨rfl, rfl, rfl, rfl, rfl⟩, ⟨by decide, by decide⟩, ⟨by decide, ⟨[], rfl⟩, by decide⟩⟩
  have hfound := hclaim tier start [] between request "k" [2, 3] "tmp" hstart (by decide)
    (by decide +kernel) (by decide +kernel) (by decide +kernel)
  have hrefused : (tier.tryGet (some "tmp") "k"
      (tier.serveAll (tier.exchange request start).after between)).result =
        .error (.store .database) := by
    decide +kernel
  cases hfound.symm.trans hrefused

end Tier

end BlobCache
