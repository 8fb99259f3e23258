/-!
# Configuration values

Configuration files and environment variables are read into values of one
type before anything is known about the settings.  Sources are layered by
`Value.merge`: what a later source says about a key replaces what an earlier
one said, except that two dictionaries are merged key by key.
-/

namespace BlobCache

/-- A value in a configuration source. -/
inductive Value where
  | null
  | bool (b : Bool)
  | integer (n : Int)
  /-- A number that is not an integer; no setting takes one. -/
  | real
  | text (s : String)
  | list (items : List Value)
  | dict (fields : List (String × Value))
deriving Repr, Inhabited

/-- The keys of one source with their values; each key occurs once. -/
abbrev Fields := List (String × Value)

namespace Fields

/-- The value of a key. -/
def get? (fields : Fields) (key : String) : Option Value :=
  (fields.find? fun field => field.1 = key).map (·.2)

/-- Give a key a value, in place of the one it had. -/
def put : Fields → String → Value → Fields
  | [], key, value => [(key, value)]
  | field :: rest, key, value =>
    if field.1 = key then (key, value) :: rest else field :: put rest key value

theorem get?_put (fields : Fields) (key key' : String) (value : Value) :
    (fields.put key value).get? key' =
      if key = key' then some value else fields.get? key' := by
  induction fields with
  | nil => by_cases h : key = key' <;> simp [put, get?, h]
  | cons field rest ih =>
      simp only [get?] at ih ⊢
      by_cases hk : field.1 = key
      · by_cases h : key = key' <;> simp [put, hk, h]
      · rw [put, if_neg hk]
        by_cases hf : field.1 = key'
        · have h : key ≠ key' := fun e => hk (hf.trans e.symm)
          simp [hf, h]
        · simpa [hf] using ih

end Fields

mutual

/-- What a key is worth when a later source says `new` after an earlier one
said `old`. -/
def Value.merge (old new : Value) : Value :=
  match new with
  | .dict later =>
    match old with
    | .dict earlier => .dict (Fields.merge earlier later)
    | _ => .dict later
  | other => other
termination_by sizeOf new

/-- The keys of an earlier source overlaid with those of a later one. -/
def Fields.merge (earlier later : Fields) : Fields :=
  match later with
  | [] => earlier
  | (key, value) :: rest =>
    let merged := match earlier.get? key with
      | some old => Value.merge old value
      | none => value
    Fields.merge (earlier.put key merged) rest
termination_by sizeOf later

end

end BlobCache
