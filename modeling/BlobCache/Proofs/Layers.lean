import BlobCache.Proofs.Dictionary

/-!
# The last layer decides

The settings are read out of three layers, the defaults, a file and the environment.
What a setting is worth is what the environment says about it, or else the file, or else
the default (`Settings.worth`), and only this value is looked at: the settings can be
read exactly if each of the four values is one that its setting can take, and each
setting is then what its value stands for (`Settings.Decided`).  Whatever lower layers
say, whatever they say about other keys, and whether dictionaries were merged on the way
makes no difference, for a dictionary is not a value that a setting can take
(`Settings.budget?_merge`, `Settings.path?_merge`).  Both ways to load the settings are
of this kind (`Settings.decided_by_last_layer`).
-/

namespace BlobCache

/-- Merging gives the later value, unless this is a dictionary. -/
theorem Value.merge_cases (old new : Value) :
    old.merge new = new ∨ ∃ fields later, new = .dict later ∧ old.merge new = .dict fields := by
  cases new with
  | dict later =>
      cases old with
      | dict earlier => exact Or.inr ⟨_, later, rfl, by rw [Value.merge]⟩
      | _ => exact Or.inl (by rw [Value.merge]; simp)
  | _ => exact Or.inl (by rw [Value.merge]; simp)

namespace Settings

theorem budget?_merge (old new : Value) : budget? (old.merge new) = budget? new := by
  rcases old.merge_cases new with hsame | ⟨fields, later, rfl, hdict⟩
  · rw [hsame]
  · rw [hdict, budget?, budget?] <;> simp

theorem path?_merge (old new : Value) : path? (old.merge new) = path? new := by
  rcases old.merge_cases new with hsame | ⟨fields, later, rfl, hdict⟩
  · rw [hsame]
  · rw [hdict, path?, path?] <;> simp

/-! ## What a setting is worth -/

/-- The value of a setting that no source sets; an unset path is null. -/
def unset (key : String) : Value := (defaults.get? key).getD .null

/-- The value of a setting under a file and the environment. -/
def worth (file env : Fields) (key : String) : Value :=
  ((env.get? key).or (file.get? key)).getD (unset key)

/-- A value that a budget can take. -/
def IsBudget (v : Value) : Prop := ∃ n : Int, v = .integer n ∧ 0 ≤ n ∧ n ≤ wordMax

/-- A value that a path can take. -/
def IsPath (v : Value) : Prop := v = .null ∨ ∃ text, v = .text text

/-- The value that says of a path what it is, or that there is none. -/
def pathValue : Option String → Value
  | some text => .text text
  | none => .null

theorem budget?_eq_some {v : Value} {n : Nat} :
    budget? v = some n ↔ v = .integer n ∧ n ≤ wordMax := by
  cases v with
  | integer m =>
      simp only [budget?, Option.ite_none_right_eq_some, Option.some.injEq, Value.integer.injEq]
      omega
  | _ => simp [budget?]

theorem path?_eq_some {v : Value} {path : Option String} :
    path? v = some path ↔ v = pathValue path := by
  cases path <;> cases v <;> simp [path?, pathValue]

theorem isBudget_iff {v : Value} : IsBudget v ↔ ∃ n, budget? v = some n := by
  simp only [budget?_eq_some]
  constructor
  · rintro ⟨n, rfl, hpos, hle⟩
    exact ⟨n.toNat, by rw [Int.toNat_of_nonneg hpos], by omega⟩
  · rintro ⟨n, rfl, hle⟩
    exact ⟨n, rfl, Int.natCast_nonneg _, by omega⟩

theorem isPath_iff {v : Value} : IsPath v ↔ ∃ path, path? v = some path := by
  simp only [path?_eq_some]
  constructor
  · rintro (rfl | ⟨text, rfl⟩)
    · exact ⟨none, rfl⟩
    · exact ⟨some text, rfl⟩
  · rintro ⟨path, rfl⟩
    cases path with
    | none => exact Or.inl rfl
    | some text => exact Or.inr ⟨text, rfl⟩

section Merged

variable {α : Type} {r : Value → Option α} {file env : Fields}

/-- To a reader that does not see into dictionaries, the merged sources say what the last
of them says. -/
theorem map_get?_merged (hr : ∀ old new : Value, r (old.merge new) = r new) (hfile : file.Distinct)
    (henv : env.Distinct) (key : String) :
    (((defaults.merge file).merge env).get? key).map r =
      ((env.get? key).or ((file.get? key).or (defaults.get? key))).map r := by
  have hlast (old? : Option Value) : r ∘ Value.over old? = r := by
    funext new
    cases old? with
    | none => rfl
    | some old => exact hr old new
  rw [Fields.get?_merge henv, Fields.get?_merge hfile, Option.map_or, Option.map_or,
    Option.map_or, Option.map_or, Option.map_map, Option.map_map, hlast, hlast]

theorem path?_merged (hfile : file.Distinct) (henv : env.Distinct) (key : String) :
    path? ((((defaults.merge file).merge env).get? key).getD .null) =
      path? (worth file env key) := by
  have h := congrArg (Option.getD · (path? .null)) (map_get?_merged path?_merge hfile henv key)
  rw [Option.getD_map, Option.getD_map] at h
  rw [h, worth, unset]
  cases env.get? key <;> cases file.get? key <;> rfl

/-- A budget is there in any case, if only by default. -/
theorem budget?_merged (hfile : file.Distinct) (henv : env.Distinct) {key : String}
    {budget : Nat} (hdefault : defaults.get? key = some (.integer budget)) :
    ∃ value, ((defaults.merge file).merge env).get? key = some value ∧
      budget? value = budget? (worth file env key) := by
  have hworth : (env.get? key).or ((file.get? key).or (defaults.get? key)) =
      some (worth file env key) := by
    rw [worth, unset, hdefault]
    cases env.get? key <;> cases file.get? key <;> rfl
  have h := map_get?_merged budget?_merge hfile henv key
  rw [hworth] at h
  exact Option.map_eq_some_iff.mp h

end Merged

/-! ## Settings from two layers -/

/-- What becomes of the settings under a file and the environment: they can be read
exactly if each is worth a value that it can take, each is then what this value stands
for, and there is one error if not. -/
structure Decided (file env : Fields) (result : Except ConfigError Settings) : Prop where
  succeeds : (∃ s, result = .ok s) ↔
    IsPath (worth file env "location") ∧ IsBudget (worth file env "memory_budget") ∧
      IsBudget (worth file env "disk_budget") ∧ IsPath (worth file env "extract_dir")
  decoded : ∀ s, result = .ok s →
    worth file env "location" = pathValue s.location ∧
      worth file env "memory_budget" = .integer s.memoryBudget ∧
      worth file env "disk_budget" = .integer s.diskBudget ∧
      worth file env "extract_dir" = pathValue s.extractDir
  refused : ∀ e, result = .error e → e = .invalid

variable {file env : Fields}

/-- The settings that stand for what each of them is worth, if its value is one that it can
take. -/
def settled? (file env : Fields) : Option Settings := do
  let location ← path? (worth file env "location")
  let memoryBudget ← budget? (worth file env "memory_budget")
  let diskBudget ← budget? (worth file env "disk_budget")
  let extractDir ← path? (worth file env "extract_dir")
  some { location, memoryBudget, diskBudget, extractDir }

theorem settled?_eq_some {s : Settings} :
    settled? file env = some s ↔
      path? (worth file env "location") = some s.location ∧
        budget? (worth file env "memory_budget") = some s.memoryBudget ∧
        budget? (worth file env "disk_budget") = some s.diskBudget ∧
        path? (worth file env "extract_dir") = some s.extractDir := by
  unfold settled?
  simp only [Option.bind_eq_bind, Option.bind_eq_some_iff, Option.some.injEq]
  constructor
  · rintro ⟨location, hlocation, memory, hmemory, disk, hdisk, extract, hextract, rfl⟩
    exact ⟨hlocation, hmemory, hdisk, hextract⟩
  · rintro ⟨hlocation, hmemory, hdisk, hextract⟩
    exact ⟨_, hlocation, _, hmemory, _, hdisk, _, hextract, rfl⟩

/-- Settings that stand for what each of them is worth are the ones that are read. -/
theorem Decided.eq_ok {result : Except ConfigError Settings} (h : Decided file env result)
    {s : Settings} (hs : settled? file env = some s) : result = .ok s := by
  obtain ⟨hlocation, hmemory, hdisk, hextract⟩ := settled?_eq_some.mp hs
  obtain ⟨t, ht⟩ := h.succeeds.mpr ⟨isPath_iff.mpr ⟨_, hlocation⟩, isBudget_iff.mpr ⟨_, hmemory⟩,
    isBudget_iff.mpr ⟨_, hdisk⟩, isPath_iff.mpr ⟨_, hextract⟩⟩
  obtain ⟨hlocation', hmemory', hdisk', hextract'⟩ := h.decoded t ht
  have hbudget {v : Value} {m n : Nat} (hv : budget? v = some m) (hv' : v = .integer n) :
      n = m := by
    have := hv'.symm.trans (budget?_eq_some.mp hv).1
    exact Int.ofNat.inj (Value.integer.inj this)
  have hsame : t = s := by
    obtain ⟨location, memory, disk, extract⟩ := t
    obtain rfl := hbudget hmemory hmemory'
    obtain rfl := hbudget hdisk hdisk'
    obtain rfl := Option.some.inj ((path?_eq_some.mpr hlocation').symm.trans hlocation)
    obtain rfl := Option.some.inj ((path?_eq_some.mpr hextract').symm.trans hextract)
    rfl
  rw [ht, hsame]

/-- The settings are read off what each of them is worth. -/
theorem ofFields?_merged (hfile : file.Distinct) (henv : env.Distinct) :
    ofFields? ((defaults.merge file).merge env) = settled? file env := by
  obtain ⟨memory, hmemory, hmemory'⟩ := @budget?_merged file env hfile henv "memory_budget" _ rfl
  obtain ⟨disk, hdisk, hdisk'⟩ := @budget?_merged file env hfile henv "disk_budget" _ rfl
  unfold ofFields? settled?
  rw [path?_merged hfile henv, path?_merged hfile henv, hmemory, hdisk, ← hmemory', ← hdisk']

/-- Two layers over the defaults decide the settings. -/
theorem decided_ofLayers (hfile : file.Distinct) (henv : env.Distinct) :
    Decided file env (ofLayers [file, env]) := by
  have hok : ∀ s, ofLayers [file, env] = .ok s ↔ settled? file env = some s := by
    intro s
    unfold ofLayers
    simp only [List.foldl_cons, List.foldl_nil, ofFields?_merged hfile henv]
    cases settled? file env <;> simp
  refine ⟨?_, ?_, ?_⟩
  · simp only [hok, settled?_eq_some, isPath_iff, isBudget_iff]
    constructor
    · rintro ⟨s, hlocation, hmemory, hdisk, hextract⟩
      exact ⟨⟨_, hlocation⟩, ⟨_, hmemory⟩, ⟨_, hdisk⟩, ⟨_, hextract⟩⟩
    · rintro ⟨⟨location, hlocation⟩, ⟨memory, hmemory⟩, ⟨disk, hdisk⟩, ⟨extract, hextract⟩⟩
      exact ⟨⟨location, memory, disk, extract⟩, hlocation, hmemory, hdisk, hextract⟩
  · intro s hs
    obtain ⟨hlocation, hmemory, hdisk, hextract⟩ :=
      settled?_eq_some.mp ((hok s).mp hs)
    exact ⟨path?_eq_some.mp hlocation, (budget?_eq_some.mp hmemory).1,
      (budget?_eq_some.mp hdisk).1, path?_eq_some.mp hextract⟩
  · intro e he
    unfold ofLayers at he
    split at he
    · cases he
    · exact (Except.error.inj he).symm

/-! ## Loading -/

/-- The layer of the platform's configuration file; it is empty if there is no such
file. -/
def platformLayer (disk : Disk) (base : Path) (env : Environment) : Except ConfigError Fields :=
  match env.configFile?.bind (disk.text? base) with
  | none => .ok []
  | some text => readFields .toml text

theorem distinct_of_readFields {format : Format} {text : Except ConfigError String}
    (h : readFields format text = .ok file) : file.Distinct := by
  unfold readFields at h
  cases text with
  | error e => cases h
  | ok text =>
      simp only [bind, Except.bind] at h
      split at h
      · rename_i fields hfields
        cases h
        exact Format.distinct_of_fields? hfields
      · cases h

/-- Nothing in a layer is as good as no layer. -/
theorem ofLayers_nil_cons (layers : List Fields) : ofLayers ([] :: layers) = ofLayers layers := by
  simp only [ofLayers, List.foldl_cons, Fields.merge_nil]

/-- **Loading lays the environment over the platform's configuration file.** -/
theorem load_eq (disk : Disk) (base : Path) (env : Environment) :
    (load disk base env).1 =
      (do ofLayers [← platformLayer disk base env, env.fields]) := by
  unfold load platformLayer
  cases env.configFile? with
  | none => exact (ofLayers_nil_cons _).symm
  | some path =>
      simp only [Option.bind_some]
      cases disk.text? base path with
      | none => exact (ofLayers_nil_cons _).symm
      | some text => rfl

/-- **The last layer decides**, setting by setting: for any two sources over the defaults,
for a file that is named and the environment, and for the platform's configuration file,
or nothing in its place, and the environment. -/
theorem decided_by_last_layer :
    (∀ file env : Fields, file.Distinct → env.Distinct →
      Decided file env (ofLayers [file, env])) ∧
    (∀ (disk : Disk) (base : Path) (env : Environment) (path : String) (file : Fields),
      fileLayer disk base path = .ok (.ok file) →
        Decided file env.fields (loadFrom disk base env path)) ∧
    ∀ (disk : Disk) (base : Path) (env : Environment) (file : Fields),
      platformLayer disk base env = .ok file →
        Decided file env.fields (load disk base env).1 := by
  refine ⟨fun _ _ hfile henv => decided_ofLayers hfile henv, ?_, ?_⟩
  · intro disk base env path file h
    have hfile : file.Distinct := by
      unfold fileLayer at h
      split at h
      · cases h
      · split at h
        · exact distinct_of_readFields (Except.ok.inj h)
        · cases h
    have hload : loadFrom disk base env path = ofLayers [file, env.fields] := by
      simp only [loadFrom, h, bind, Except.bind]
    rw [hload]
    exact decided_ofLayers hfile env.distinct_fields
  · intro disk base env file h
    have hfile : file.Distinct := by
      unfold platformLayer at h
      split at h
      · cases h
        exact Fields.distinct_nil
      · exact distinct_of_readFields h
    rw [load_eq, h]
    exact decided_ofLayers hfile env.distinct_fields

/-- What comes of a layer tells that it was read. -/
theorem exists_ok_of_bind {α β : Type} {layer : Except ConfigError α} {f : α → Option β} {b : β}
    (h : layer.toOption.bind f = some b) : ∃ a, layer = .ok a ∧ f a = some b := by
  cases layer with
  | error e => cases h
  | ok a => exact ⟨a, rfl, h⟩

/-- A budget below zero does no harm where the environment sets another one, and neither
does a key that is no setting: not in a file that is named, and not in the platform's own
below the home directory.  Where no home directory is known, no such file is looked for. -/
theorem decided_by_last_layer_overridden :
    let json := "\x7b\"memory_budget\": -1, \"location\": \"/srv/a\", \"x\": [1]\x7d"
    let toml := "x = [1]\nmemory_budget = -1\ndisk_budget = 4096\n"
    let disk : Disk :=
      ⟨[(["etc"], .directory), (["etc", "stash.json"], .file json.toUTF8.data.toList),
        (["root"], .directory), (["root", ".config"], .directory),
        (["root", ".config", "stash"], .directory),
        (["root", ".config", "stash", "config.toml"], .file toml.toUTF8.data.toList)]⟩
    let env : Environment := [("STASH_MEMORY_BUDGET", "512")]
    let atHome : Environment := [("HOME", "/root"), ("STASH_MEMORY_BUDGET", "512")]
    (∃ file, fileLayer disk [] "/etc/stash.json" = .ok (.ok file)) ∧
    loadFrom disk [] env "/etc/stash.json" =
      .ok { location := some "/srv/a", memoryBudget := 512 } ∧
    platformLayer disk [] env = .ok [] ∧
    (load disk [] env).1 = .ok { memoryBudget := 512 } ∧
    (∃ file, platformLayer disk [] atHome = .ok file) ∧
    (load disk [] atHome).1 = .ok { memoryBudget := 512, diskBudget := 4096 } := by
  intro json toml disk env atHome
  obtain ⟨-, hnamed, hload⟩ := decided_by_last_layer
  obtain ⟨_, hread, hlayer⟩ := exists_ok_of_bind
    (show ((fileLayer disk [] "/etc/stash.json").toOption.bind fun layer =>
      layer.toOption.bind (settled? · env.fields)) =
        some { location := some "/srv/a", memoryBudget := 512 } by decide +kernel)
  obtain ⟨file, rfl, hnamed'⟩ := exists_ok_of_bind hlayer
  obtain ⟨own, hown, hplatform⟩ := exists_ok_of_bind
    (show (platformLayer disk [] atHome).toOption.bind (settled? · atHome.fields) =
      some { memoryBudget := 512, diskBudget := 4096 } by decide +kernel)
  have hnone : platformLayer disk [] env = .ok [] := rfl
  have halone : settled? [] env.fields = some { memoryBudget := 512 } := by decide +kernel
  exact ⟨⟨file, hread⟩, (hnamed disk [] env _ file hread).eq_ok hnamed', hnone,
    (hload disk [] env [] hnone).eq_ok halone, ⟨own, hown⟩,
    (hload disk [] atHome own hown).eq_ok hplatform⟩

end Settings

end BlobCache
