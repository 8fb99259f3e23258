import BlobCache.Config.Load
import Mathlib

/-!
# Sources are dictionaries

The fields of a source are a list, but a key stands in it once (`Fields.Distinct`), so
that it makes no difference where in the list it is looked for.  This is so for every
file that can be read, whatever its format (`Format.distinct_of_fields?`), and for the
environment (`Environment.distinct_fields`).  JSON and YAML enter their keys one by one
into the fields they have, and so does the environment; a TOML document defines no place
twice (`Toml.Document.Sound`), and the keys of one table are the last parts of different
places.

When one source is laid over another, the keys of the later one are the ones that count
(`Fields.get?_merge`).
-/

namespace BlobCache

/-- What a key is worth when a source says `new` after what earlier ones said, if they
said anything. -/
def Value.over (old? : Option Value) (new : Value) : Value :=
  match old? with
  | some old => old.merge new
  | none => new

namespace Fields

/-- Each key occurs once. -/
def Distinct (fields : Fields) : Prop := (fields.map (·.1)).Nodup

variable {fields earlier later : Fields} {key : String} {value : Value}

theorem distinct_nil : Distinct [] := List.nodup_nil

theorem mem_keys_put {k : String} :
    k ∈ (fields.put key value).map (·.1) ↔ k = key ∨ k ∈ fields.map (·.1) := by
  induction fields with
  | nil => simp [put]
  | cons field rest ih =>
      by_cases h : field.1 = key
      · rw [put, if_pos h, List.map_cons, List.map_cons, List.mem_cons, List.mem_cons, h]
        exact (or_iff_right_of_imp Or.inl).symm
      · rw [put, if_neg h, List.map_cons, List.map_cons, List.mem_cons, List.mem_cons, ih]
        exact or_left_comm

theorem distinct_put (h : fields.Distinct) : (fields.put key value).Distinct := by
  induction fields with
  | nil => exact List.nodup_singleton _
  | cons field rest ih =>
      obtain ⟨hout, hrest⟩ := List.nodup_cons.mp h
      by_cases heq : field.1 = key
      · rw [put, if_pos heq]
        exact List.nodup_cons.mpr ⟨heq ▸ hout, hrest⟩
      · rw [put, if_neg heq]
        refine List.nodup_cons.mpr ⟨?_, ih hrest⟩
        intro hmem
        exact (mem_keys_put.mp hmem).elim heq hout

/-- A key that does not occur has no value. -/
theorem get?_eq_none : fields.get? key = none ↔ key ∉ fields.map (·.1) := by
  rw [get?, Option.map_eq_none_iff, List.find?_eq_none, List.mem_map]
  simp only [decide_eq_true_eq, not_exists, not_and]

theorem get?_cons (field : String × Value) (rest : Fields) :
    get? (field :: rest) key = if field.1 = key then some field.2 else get? rest key := by
  by_cases h : field.1 = key <;> simp [get?, h]

theorem merge_nil (earlier : Fields) : earlier.merge [] = earlier := by
  rw [merge]

theorem merge_cons (earlier : Fields) (key : String) (value : Value) (rest : Fields) :
    earlier.merge ((key, value) :: rest) =
      (earlier.put key (Value.over (earlier.get? key) value)).merge rest := by
  rw [merge]
  rfl

theorem distinct_merge (h : earlier.Distinct) : (earlier.merge later).Distinct := by
  induction later generalizing earlier with
  | nil => rwa [merge_nil]
  | cons field rest ih =>
      rw [merge_cons]
      exact ih (distinct_put h)

/-- What is built up from nothing by steps that keep keys distinct has distinct keys. -/
theorem distinct_foldl {α : Type} {step : Fields → α → Fields}
    (hstep : ∀ fields a, Distinct fields → Distinct (step fields a)) (h : fields.Distinct)
    (l : List α) : Distinct (l.foldl step fields) := by
  induction l generalizing fields with
  | nil => exact h
  | cons a rest ih => exact ih (hstep fields a h)

/-- **A later source wins key by key**, and its dictionaries are merged with those of the
earlier one. -/
theorem get?_merge (h : later.Distinct) :
    (earlier.merge later).get? key =
      ((later.get? key).map (Value.over (earlier.get? key))).or (earlier.get? key) := by
  induction later generalizing earlier with
  | nil => rw [merge_nil]; rfl
  | cons field rest ih =>
      obtain ⟨hout, hrest⟩ := List.nodup_cons.mp h
      rw [merge_cons, ih hrest, get?_put, get?_cons]
      by_cases heq : field.1 = key
      · have habsent : get? rest key = none := get?_eq_none.mpr (heq ▸ hout)
        rw [if_pos heq, if_pos heq, habsent, heq]
        rfl
      · rw [if_neg heq, if_neg heq]

end Fields

/-- The environment says one thing about each key. -/
theorem Environment.distinct_fields (env : Environment) : env.fields.Distinct :=
  Fields.distinct_foldl (fun _ _ h => Fields.distinct_merge h) Fields.distinct_nil env

/-! ## What a reader yields -/

namespace Reader

variable {α β : Type} {P : α → Prop} {Q : β → Prop}

/-- Whatever text it reads from, what the reader makes of it satisfies `P`. -/
def Yields (P : α → Prop) (reader : Reader α) : Prop :=
  ∀ cs a rest, reader cs = some (a, rest) → P a

theorem yields_pure {a : α} (h : P a) : Yields P (pure a : Reader α) := by
  rintro cs _ rest ⟨⟩
  exact h

theorem yields_failure : Yields P (failure : Reader α) := by
  rintro cs a rest ⟨⟩

/-- What a step of a text yields may be used in the next one. -/
theorem yields_bind {x : Reader α} {f : α → Reader β} (hx : Yields P x)
    (hf : ∀ a, P a → Yields Q (f a)) : Yields Q (x >>= f) := by
  intro cs b rest h
  obtain ⟨⟨a, mid⟩, ha, hb⟩ := Option.bind_eq_some_iff.mp h
  exact hf a (hx cs a mid ha) mid b rest hb

/-- Often nothing is to be known of what was read before. -/
theorem yields_then {x : Reader α} {f : α → Reader β} (hf : ∀ a, Yields Q (f a)) :
    Yields Q (x >>= f) :=
  yields_bind (fun _ _ _ _ => trivial) fun a _ => hf a

/-- A value that is there or not is there without reading. -/
theorem yields_lift {o : Option α} (h : ∀ a, o = some a → P a) :
    Yields P (liftM o : Reader α) := by
  intro cs a rest hrun
  obtain ⟨b, hb, ⟨⟩⟩ := Option.bind_eq_some_iff.mp hrun
  exact h a hb

theorem yields_of_all? {reader : Reader α} {text : List Char} {a : α} (h : Yields P reader)
    (hall : reader.all? text = some a) : P a := by
  unfold all? at hall
  split at hall
  · rename_i b hrun
    cases hall
    exact h _ _ _ hrun
  · cases hall

end Reader

/-! ## What files yield -/

/-- If the value is a dictionary, each key occurs once in it. -/
def Value.Keyed : Value → Prop
  | .dict fields => Fields.Distinct fields
  | _ => True

namespace Json

open Reader

theorem keyed_number : Yields Value.Keyed number := by
  unfold number
  refine yields_then fun _ => yields_then fun _ => yields_then fun _ => yields_then fun _ => ?_
  simp only
  split
  · exact yields_pure trivial
  · split
    · exact yields_pure trivial
    · split
      · exact yields_failure
      · exact yields_pure trivial

theorem keyed_scalar : Yields Value.Keyed scalar := by
  unfold scalar
  refine yields_then fun c => ?_
  split
  · exact yields_then fun _ => yields_pure trivial
  · exact yields_then fun _ => yields_pure trivial
  · exact yields_then fun _ => yields_pure trivial
  · exact yields_then fun _ => yields_pure trivial
  · exact keyed_number

theorem distinct_collectFields (members : List (String × Value)) :
    (collectFields members).Distinct :=
  Fields.distinct_foldl (fun _ _ h => Fields.distinct_put h) Fields.distinct_nil members

theorem keyed_value (depth : Nat) : Yields Value.Keyed (value depth) := by
  cases depth with
  | zero => exact keyed_scalar
  | succ inner =>
      unfold value
      refine yields_then fun opensList => ?_
      split
      · exact yields_then fun _ => yields_pure trivial
      · refine yields_then fun opensObject => ?_
        split
        · exact yields_then fun members => yields_pure (distinct_collectFields members)
        · exact keyed_scalar

theorem distinct_of_fields? {text : String} {fields : Fields} (h : fields? text = some fields) :
    fields.Distinct := by
  unfold fields? at h
  split at h
  · rename_i members hall
    cases h
    have hdocument : Yields Value.Keyed document :=
      yields_then fun _ => yields_bind (keyed_value nesting) fun v hv =>
        yields_then fun _ => yields_pure hv
    have hkeyed : Value.Keyed (.dict fields) := yields_of_all? hdocument hall
    exact hkeyed
  · cases h

end Json

namespace Yaml

theorem distinct_of_foldlM {depth : Nat} {pairs : List (Node × Node)} {start fields : Fields}
    (hstart : start.Distinct)
    (h : pairs.foldlM (fun (fields : Fields) pair => do
      let key ← keyText? pair.1
      let v ← value? depth pair.2
      some (fields.put key v)) start = some fields) : fields.Distinct := by
  induction pairs generalizing start with
  | nil =>
      cases h
      exact hstart
  | cons pair rest ih =>
      rw [List.foldlM_cons] at h
      obtain ⟨mid, hmid, hrest⟩ := Option.bind_eq_some_iff.mp h
      obtain ⟨key, -, hmid⟩ := Option.bind_eq_some_iff.mp hmid
      obtain ⟨v, -, ⟨⟩⟩ := Option.bind_eq_some_iff.mp hmid
      exact ih (Fields.distinct_put hstart) hrest

theorem distinct_of_fields? {text : String} {fields : Fields} (h : fields? text = some fields) :
    fields.Distinct := by
  obtain ⟨document, -, h⟩ := Option.bind_eq_some_iff.mp h
  split at h
  · cases h
    exact Fields.distinct_nil
  · cases h
    exact Fields.distinct_nil
  · rename_i tag pairs
    obtain ⟨v, hv, h⟩ := Option.bind_eq_some_iff.mp h
    split at h
    · rename_i members
      cases h
      obtain ⟨members, hmembers, ⟨⟩⟩ := Option.map_eq_some_iff.mp hv
      exact distinct_of_foldlM Fields.distinct_nil hmembers
    · cases h
  · cases h

end Yaml

namespace Toml

namespace Document

variable {doc doc' : Document}

/-- No place is defined twice. -/
def Sound (doc : Document) : Prop := (doc.defs.map (·.1)).Nodup

namespace Sound

theorem define (h : doc.Sound) (place : Place) (d : Definition) : (doc.define place d).Sound := by
  have hkept : ((doc.defs.filter fun other => other.1 ≠ place).map (·.1)).Nodup :=
    h.sublist (List.filter_sublist.map _)
  unfold Sound Document.define
  rw [List.map_append, List.map_singleton, List.nodup_append]
  refine ⟨hkept, List.nodup_singleton _, ?_⟩
  intro other hother here hhere
  obtain ⟨definition, hmem, rfl⟩ := List.mem_map.mp hother
  rw [List.mem_singleton.mp hhere]
  simpa using (List.mem_filter.mp hmem).2

theorem descend {dotted : Bool} {keys : List String} {place above : Place} (h : doc.Sound)
    (hdone : doc.descend dotted place keys = some (doc', above)) : doc'.Sound := by
  induction keys generalizing doc place with
  | nil =>
      cases hdone
      exact h
  | cons key rest ih =>
      simp only [Document.descend] at hdone
      split at hdone
      · exact ih (h.define _ _) hdone
      · split at hdone
        · cases hdone
        · exact ih h hdone
      · exact ih h hdone
      · cases hdone

theorem startTable {keys : List String} {last : String} {place : Place} (h : doc.Sound)
    (hdone : doc.startTable keys last = some (doc', place)) : doc'.Sound := by
  obtain ⟨⟨mid, above⟩, hmid, hdone⟩ := Option.bind_eq_some_iff.mp hdone
  have hsound : mid.Sound := h.descend hmid
  simp only at hdone
  split at hdone
  · cases hdone
    exact hsound.define _ _
  · cases hdone
    exact hsound.define _ _
  · cases hdone

theorem startListed {keys : List String} {last : String} {place : Place} (h : doc.Sound)
    (hdone : doc.startListed keys last = some (doc', place)) : doc'.Sound := by
  obtain ⟨⟨mid, above⟩, hmid, hdone⟩ := Option.bind_eq_some_iff.mp hdone
  have hsound : mid.Sound := h.descend hmid
  simp only at hdone
  split at hdone
  · cases hdone
    exact (hsound.define _ _).define _ _
  · cases hdone
    exact (hsound.define _ _).define _ _
  · cases hdone

theorem assign {place : Place} {keys : List String} {last : String} {v : Value} (h : doc.Sound)
    (hdone : doc.assign place keys last v = some doc') : doc'.Sound := by
  obtain ⟨⟨mid, above⟩, hmid, hdone⟩ := Option.bind_eq_some_iff.mp hdone
  have hsound : mid.Sound := h.descend hmid
  simp only [Option.ite_none_left_eq_some, Option.some.injEq] at hdone
  obtain ⟨-, -, rfl⟩ := hdone
  exact hsound.define _ _

/-- Fields that are found at different places, one below `place` for each key, have
different keys. -/
theorem distinct_filterMap {found : Place × Definition → Option (String × Value)}
    (h : doc.Sound) (place : Place)
    (hfound : ∀ x field, found x = some field → x.1 = place ++ [.key field.1]) :
    Fields.Distinct (doc.defs.filterMap found) := by
  unfold Fields.Distinct
  rw [List.Nodup, List.pairwise_map, List.pairwise_filterMap]
  refine (List.pairwise_map.mp h).imp ?_
  intro x y hne field₁ h₁ field₂ h₂ heq
  exact hne ((hfound x field₁ h₁).trans (heq ▸ (hfound y field₂ h₂).symm))

/-- The fields of a table come from different places, which differ in their keys. -/
theorem distinct_fieldsAt (h : doc.Sound) (depth : Nat) (place : Place) :
    (doc.fieldsAt depth place).Distinct := by
  cases depth with
  | zero => exact Fields.distinct_nil
  | succ depth =>
      unfold fieldsAt
      refine h.distinct_filterMap place ?_
      rintro ⟨other, d⟩ field hfield
      simp only at hfield
      split at hfield
      · rename_i name hlast
        split at hfield
        · cases hfield
        · rename_i habove
          cases hfield
          rw [← not_not.mp habove]
          exact (List.dropLast_append_getLast? _ hlast).symm
      · cases hfield

end Sound

end Document

open Reader

/-- A line defines no place that is defined already. -/
theorem sound_line {doc : Document} {place : Place} (h : doc.Sound) :
    Yields (fun after : Document × Place => after.1.Sound) (line doc place) := by
  have hstart (listed : Bool) (keys : List String) (last : String) :
      Yields (fun after : Document × Place => after.1.Sound)
        (if listed then doc.startListed keys last else doc.startTable keys last) := by
    split
    · exact yields_lift fun after hafter => h.startListed hafter
    · exact yields_lift fun after hafter => h.startTable hafter
  unfold line
  refine yields_then fun c => ?_
  split
  · exact yields_then fun _ => yields_pure h
  · refine yields_then fun listed => ?_
    simp only
    split
    · refine yields_then fun _ => yields_then fun key => yields_then fun _ => ?_
      exact yields_then fun _ => hstart listed key.1 key.2
    · refine yields_then fun key => yields_then fun _ => ?_
      exact yields_then fun _ => hstart listed key.1 key.2
  · refine yields_then fun newline => ?_
    split
    · exact yields_pure h
    · refine yields_then fun key => yields_then fun _ => yields_then fun _ => ?_
      refine yields_then fun v => yields_then fun _ => ?_
      exact yields_bind (yields_lift fun after hafter => h.assign hafter) fun after hafter =>
        yields_pure hafter

theorem sound_lines {doc : Document} {place : Place} (count : Nat) (h : doc.Sound) :
    Yields Document.Sound (lines count doc place) := by
  induction count generalizing doc place with
  | zero => exact yields_failure
  | succ count ih =>
      unfold lines
      refine yields_then fun _ => yields_then fun done => ?_
      split
      · exact yields_pure h
      · exact yields_bind (sound_line h) fun after hafter => ih hafter

theorem distinct_of_fields? {text : String} {fields : Fields} (h : fields? text = some fields) :
    fields.Distinct := by
  obtain ⟨doc, hdoc, rfl⟩ := Option.map_eq_some_iff.mp h
  have hempty : Document.Sound {} := List.nodup_nil
  have hsound : doc.Sound := yields_of_all? (sound_lines _ hempty) hdoc
  exact hsound.distinct_fieldsAt _ _

end Toml

/-- **Whatever the format, each key of a file occurs once.** -/
theorem Format.distinct_of_fields? {format : Format} {text : String} {fields : Fields}
    (h : format.fields? text = some fields) : fields.Distinct := by
  cases format with
  | toml => exact Toml.distinct_of_fields? h
  | yaml => exact Yaml.distinct_of_fields? h
  | json => exact Json.distinct_of_fields? h

end BlobCache
