import BlobCache.Host.Cache
import BlobCache.Proofs.Levels
import BlobCache.Proofs.Recency

/-!
# Tiers of a machine

The tiers of a machine are separate as long as they do not share a database
(`Machine.Houses`), and those of a new cache do not: each is opened on a
database of its own, fresh from the schema (`Cache.create_spec`).

That a location is new is said of the machine as it was.  Opening a tier makes
the directories above its file first, but no database comes to be there through
that (`Disk.extends_makeDirectories`).
-/

namespace BlobCache

namespace Disk

variable {disk disk' : Disk} {path : Path}

theorem find?_put {node : Node} {p : Path} (hp : path ≠ []) :
    (disk.put path node).find? p = if p = path then some node else disk.find? p := by
  unfold find? put
  by_cases hroot : p = []
  · rw [if_pos hroot, if_pos hroot, if_neg (hroot ▸ hp.symm)]
  · rw [if_neg hroot, if_neg hroot, List.find?_append, List.find?_filter]
    by_cases hpath : p = path
    · have hnone : disk.nodes.find? (fun other =>
          decide (decide (other.1 ≠ path) = true ∧ decide (other.1 = p) = true)) = none := by
        apply List.find?_eq_none.mpr
        intro x _
        simp [hpath]
      rw [hnone, if_pos hpath]
      simp [hpath]
    · have hsame : (fun other : Path × Node =>
          decide (decide (other.1 ≠ path) = true ∧ decide (other.1 = p) = true)) =
            fun other => decide (other.1 = p) := by
        funext other
        by_cases hother : other.1 = p
        · simp [hother, hpath]
        · simp [hother]
      rw [hsame, if_neg hpath]
      cases disk.nodes.find? fun node => node.1 = p <;> simp [Ne.symm hpath]

/-- One disk has the directories of another, and no databases but its own. -/
structure Extends (disk disk' : Disk) : Prop where
  directory : ∀ p, disk.isDirectory p = true → disk'.isDirectory p = true
  database : ∀ p n, disk'.find? p = some (.database n) → disk.find? p = some (.database n)

theorem Extends.refl (disk : Disk) : disk.Extends disk := ⟨fun _ h => h, fun _ _ h => h⟩

theorem Extends.trans {mid : Disk} (h₁ : disk.Extends mid) (h₂ : mid.Extends disk') :
    disk.Extends disk' :=
  ⟨fun p h => h₂.directory p (h₁.directory p h), fun p n h => h₁.database p n (h₂.database p n h)⟩

/-- A directory where nothing was is no database. -/
theorem extends_put (h : disk.find? path = none) : disk.Extends (disk.put path .directory) := by
  have hpath : path ≠ [] := by
    rintro rfl
    simp [find?] at h
  constructor
  · intro p hp
    rw [isDirectory, find?_put hpath]
    split
    · rfl
    · exact hp
  · intro p n hp
    rw [find?_put hpath] at hp
    split at hp
    · cases hp
    · exact hp

/-- Make one directory, unless it is there. -/
def ensure (disk : Disk) (path : Path) : Option Disk :=
  match disk.find? path with
  | none => some (disk.put path .directory)
  | some .directory => some disk
  | some _ => none

theorem makeDirectories_eq (disk : Disk) (path : Path) : disk.makeDirectories path =
    ((List.range path.length).map fun n => path.take (n + 1)).foldlM ensure disk := rfl

theorem ensure_some (h : disk.ensure path = some disk') :
    disk.Extends disk' ∧ disk'.isDirectory path = true := by
  unfold ensure at h
  split at h
  · rename_i hnone
    cases h
    have hpath : path ≠ [] := by
      rintro rfl
      simp [find?] at hnone
    refine ⟨extends_put hnone, ?_⟩
    rw [isDirectory, find?_put hpath, if_pos rfl]
    rfl
  · rename_i hdirectory
    cases h
    refine ⟨.refl _, ?_⟩
    rw [isDirectory, hdirectory]
    rfl
  · cases h

theorem foldlM_ensure {paths : List Path} (h : paths.foldlM ensure disk = some disk') :
    disk.Extends disk' ∧ ∀ p ∈ paths, disk'.isDirectory p = true := by
  induction paths generalizing disk with
  | nil =>
      cases h
      exact ⟨.refl _, by simp⟩
  | cons first rest ih =>
      rw [List.foldlM_cons] at h
      obtain ⟨mid, hmid, hrest⟩ := Option.bind_eq_some_iff.mp h
      obtain ⟨hfirst, hthere⟩ := ensure_some hmid
      obtain ⟨hextends, hothers⟩ := ih hrest
      refine ⟨hfirst.trans hextends, ?_⟩
      intro p hp
      rcases List.mem_cons.mp hp with rfl | hp
      · exact hextends.directory _ hthere
      · exact hothers p hp

/-- Making directories makes nothing else. -/
theorem extends_makeDirectories (h : disk.makeDirectories path = some disk') :
    disk.Extends disk' :=
  (foldlM_ensure h).1

/-- The directories of one disk are there on another. -/
def Keeps (disk disk' : Disk) : Prop :=
  ∀ p, disk.isDirectory p = true → disk'.isDirectory p = true

theorem Extends.keeps (h : disk.Extends disk') : disk.Keeps disk' := h.directory

/-- Where directories stay, a path leads to where it led. -/
theorem Keeps.follow (h : disk.Keeps disk') {parts : List String} {q : Path}
    (hq : disk.follow path parts = some q) : disk'.follow path parts = some q := by
  induction parts generalizing path with
  | nil => exact hq
  | cons part rest ih =>
      unfold Disk.follow at hq ⊢
      split at hq
      · rw [if_pos ‹_›]
        exact ih hq
      · rw [if_neg ‹_›]
        split at hq
        · rw [if_pos ‹_›]
          split at hq
          · rw [if_pos (h _ ‹_›)]
            exact ih hq
          · cases hq
        · rw [if_neg ‹_›]
          split at hq
          · rw [if_pos ‹_›]
            exact ih hq
          · cases hq

theorem Keeps.resolve (h : disk.Keeps disk') {base q : Path} {text : String}
    (hq : disk.resolve base text = some q) : disk'.resolve base text = some q := by
  unfold Disk.resolve at hq ⊢
  split at hq
  · cases hq
  · rw [if_neg ‹_›]
    exact h.follow hq

theorem filePath?_eq_some {base : Path} {text : String} :
    disk.filePath? base text = some path ↔
      disk.resolve base text = some path ∧ demandsDirectory text = false ∧
        disk.isDirectory path = false ∧ disk.isDirectory path.dropLast = true := by
  simp only [filePath?, Option.bind_eq_bind, Option.bind_eq_some_iff,
    Option.ite_none_left_eq_some, Bool.or_eq_true, Bool.not_eq_true', not_or, Bool.not_eq_true,
    Bool.not_eq_false, Option.some.injEq]
  constructor
  · rintro ⟨_, hpath, ⟨⟨hdemands, hfile⟩, hroom⟩, rfl⟩
    exact ⟨hpath, hdemands, hfile, hroom⟩
  · rintro ⟨hpath, hdemands, hfile, hroom⟩
    exact ⟨path, hpath, ⟨⟨hdemands, hfile⟩, hroom⟩, rfl⟩

end Disk

namespace Machine

variable {m m' : Machine} {location : Location} {number : Nat}

/-- Nothing is kept at a location yet. -/
def IsNew (m : Machine) : Location → Prop
  | .memory => True
  | .file text => ∀ n, m.named? text ≠ some (.database n)

/-- Where nothing is, nothing is kept. -/
theorem isNew_file {text : String} (h : m.named? text = none) : m.IsNew (.file text) := by
  intro n
  rw [h]
  nofun

/-- What is found or made at a location in a file. -/
theorem locateOrMake_file {text : String} (hfile : inFile? location = some text)
    (h : m.locateOrMake location = (some number, m')) :
    ∃ path disk, m.disk.resolve m.workDirectory text = some path ∧
      m.disk.makeDirectories path.dropLast = some disk ∧
      disk.filePath? m.workDirectory text = some path ∧
      (disk.find? path = some (.database number) ∧ m' = { m with disk } ∨
        number = m.databases.length ∧
          m' = { m with
            disk := disk.put path (.database number), databases := m.databases ++ [.empty] }) := by
  simp only [locateOrMake, locate, hfile] at h
  cases hroom : m.makeParents text with
  | none => simp [hroom] at h
  | some made =>
      simp only [hroom] at h
      simp only [makeParents, onDisk, Option.bind_eq_bind, Option.bind_eq_some_iff,
        Option.map_eq_some_iff] at hroom
      obtain ⟨path, hpath, disk, hdisk, rfl⟩ := hroom
      cases hplace : disk.filePath? m.workDirectory text with
      | none => simp [fileDatabase, hplace] at h
      | some path' =>
          have hsame := (Disk.filePath?_eq_some.mp hplace).1
          rw [(Disk.extends_makeDirectories hdisk).keeps.resolve hpath] at hsame
          obtain rfl := Option.some.inj hsame
          refine ⟨path, disk, hpath, hdisk, hplace, ?_⟩
          simp only [fileDatabase, hplace, Option.bind_eq_bind, Option.bind_some] at h
          split at h
          · cases h
          · rename_i hmade
            split at hmade
            · cases hmade
              cases h
              exact Or.inl ⟨‹_›, rfl⟩
            · cases hmade
            · cases h
              cases hmade
              exact Or.inr ⟨rfl, rfl⟩

/-- The database at a new location is a new one. -/
theorem locateOrMake_new (hnew : m.IsNew location)
    (h : m.locateOrMake location = (some number, m')) :
    number = m.databases.length ∧ m'.databases = m.databases ++ [.empty] ∧ m'.tiers = m.tiers := by
  cases hfile : inFile? location with
  | none =>
      simp only [locateOrMake, locate, hfile, newDatabase] at h
      cases h
      exact ⟨rfl, rfl, rfl⟩
  | some text =>
      obtain rfl : location = .file text := by
        cases location with
        | memory => cases hfile
        | file text' =>
            simp only [inFile?, Option.ite_none_left_eq_some] at hfile
            rw [Option.some.inj hfile.2]
      obtain ⟨path, disk, hpath, hdisk, hplace, ⟨hfound, -⟩ | ⟨rfl, rfl⟩⟩ :=
        locateOrMake_file hfile h
      · refine absurd ?_ (hnew number)
        have hdatabase := (Disk.extends_makeDirectories hdisk).database _ _ hfound
        simp [named?, Disk.named?, hpath, hdatabase, (Disk.filePath?_eq_some.mp hplace).2.1]
      · exact ⟨rfl, rfl, rfl⟩

/-- A tier opened at a new location has a database of its own, made from the
schema. -/
theorem openTier_new {budget : Nat} {extractDir : Option String} {log : List Event}
    (hnew : m.IsNew location)
    (h : m.openTier location budget extractDir = (.ok number, m', log)) :
    number = m.tiers.length ∧ m'.databases = m.databases ++ [.fresh] ∧
      m'.tiers = m.tiers ++ [⟨{ location, budget, extractDir }, m.databases.length⟩] := by
  unfold openTier at h
  split at h
  · cases h
  · rename_i found made hmade
    obtain ⟨rfl, hdatabases, htiers⟩ := locateOrMake_new hnew hmade
    have hempty : made.database m.databases.length = .empty := by
      simp [database, hdatabases]
    simp only [hempty, Tier.openOn_empty] at h
    cases h
    refine ⟨by rw [setDatabase, htiers], ?_, ?_⟩
    · simp [setDatabase, hdatabases]
    · simp [setDatabase, htiers]

/-- A tier in memory leaves the disk alone. -/
theorem isNew_of_openTier_memory {budget : Nat} {extractDir : Option String} {log : List Event}
    {other : Location} (hother : m.IsNew other)
    (h : m.openTier .memory budget extractDir = (.ok number, m', log)) : m'.IsNew other := by
  have hdisk : m'.disk = m.disk ∧ m'.workDirectory = m.workDirectory := by
    simp only [openTier, locateOrMake, inFile?, locate, newDatabase] at h
    split at h
    · cases h
    · cases h
      exact ⟨rfl, rfl⟩
  cases other with
  | memory => trivial
  | file text =>
      intro n
      rw [named?, hdisk.1, hdisk.2]
      exact hother n

/-- The tiers with these numbers are there, and no two of them share a database. -/
structure Houses (numbers : List Nat) (m : Machine) : Prop where
  tiers : ∀ n ∈ numbers, n < m.tiers.length
  databases : ∀ n ∈ numbers, (m.openTierAt n).database < m.databases.length
  apart : ∀ a ∈ numbers, ∀ b ∈ numbers, a ≠ b →
    (m.openTierAt a).database ≠ (m.openTierAt b).database

section Update

variable {n : Nat} {numbers : List Nat} (t : Tier) (d : Db)

theorem openTierAt_update (h : n < m.tiers.length) (k : Nat) :
    ((tierPlace n).update t d m).openTierAt k =
      if k = n then ⟨t, (m.openTierAt n).database⟩ else m.openTierAt k := by
  simp only [openTierAt, tierPlace, setDatabase]
  by_cases hk : k = n
  · subst hk
    rw [List.getElem?_set_self h, if_pos rfl]
    rfl
  · rw [List.getElem?_set_ne (Ne.symm hk), if_neg hk]

theorem database_update (h : (m.openTierAt n).database < m.databases.length) (k : Nat) :
    ((tierPlace n).update t d m).database k =
      if k = (m.openTierAt n).database then d else m.database k := by
  simp only [database, tierPlace, setDatabase]
  by_cases hk : k = (m.openTierAt n).database
  · subst hk
    rw [List.getElem?_set_self h, if_pos rfl]
    rfl
  · rw [List.getElem?_set_ne (Ne.symm hk), if_neg hk]

theorem database_openTierAt_update (h : n < m.tiers.length) (k : Nat) :
    (((tierPlace n).update t d m).openTierAt k).database = (m.openTierAt k).database := by
  rw [openTierAt_update t d h]
  split
  · simp [*]
  · rfl

/-- The tiers of a machine that share no database are separate. -/
theorem separate_tierPlaces (hnodup : numbers.Nodup) :
    Separate (Houses numbers) (numbers.map tierPlace) := by
  have hignores : ∀ a ∈ numbers, ∀ b ∈ numbers, a ≠ b →
      (tierPlace b).Ignores (Houses numbers) (tierPlace a) := by
    intro a ha b hb hne
    constructor
    · intro m t d hm
      show (((tierPlace a).update t d m).openTierAt b).tier = (m.openTierAt b).tier
      rw [openTierAt_update t d (hm.tiers a ha), if_neg hne.symm]
    · intro m t d hm
      show ((tierPlace a).update t d m).database
        (((tierPlace a).update t d m).openTierAt b).database = m.database (m.openTierAt b).database
      rw [database_openTierAt_update t d (hm.tiers a ha),
        database_update t d (hm.databases a ha), if_neg (hm.apart b hb a ha hne.symm)]
  constructor
  · intro p hp
    obtain ⟨n, hn, rfl⟩ := List.mem_map.mp hp
    constructor
    · intro m t d hm
      constructor
      · intro k hk
        simpa [tierPlace, setDatabase] using hm.tiers k hk
      · intro k hk
        rw [database_openTierAt_update t d (hm.tiers n hn)]
        simpa [tierPlace, setDatabase] using hm.databases k hk
      · intro a ha b hb hne
        rw [database_openTierAt_update t d (hm.tiers n hn),
          database_openTierAt_update t d (hm.tiers n hn)]
        exact hm.apart a ha b hb hne
    · intro m t d hm
      show (((tierPlace n).update t d m).openTierAt n).tier = t
      rw [openTierAt_update t d (hm.tiers n hn), if_pos rfl]
    · intro m t d hm
      show ((tierPlace n).update t d m).database
        (((tierPlace n).update t d m).openTierAt n).database = d
      rw [database_openTierAt_update t d (hm.tiers n hn),
        database_update t d (hm.databases n hn), if_pos rfl]
  · rw [List.pairwise_map]
    exact hnodup.imp_of_mem fun ha hb hne =>
      ⟨hignores _ ha _ hb hne, hignores _ hb _ ha hne.symm⟩

end Update

end Machine

namespace Cache

variable {m : Machine}

/-- A tier that is added was opened; otherwise the cache is as before. -/
theorem addTier_cases (cache : Cache) (m : Machine) (location : Location) (budget : Nat)
    (extractDir : Option String) (unavailable disabled : Event) :
    ∀ added, (if 0 < budget then cache.addTier m location budget extractDir unavailable
        else (cache, m, [disabled])) = added →
      (∃ number log, m.openTier location budget extractDir = (.ok number, added.2.1, log) ∧
        added.1.tiers = cache.tiers ++ [number]) ∨ added.1 = cache := by
  rintro _ rfl
  split
  · unfold addTier
    split
    · exact Or.inl ⟨_, _, ‹_›, rfl⟩
    · exact Or.inr rfl
  · exact Or.inr rfl

/-- A new cache with two tiers has opened one in memory and then one on disk. -/
theorem create_opened {location : String} {memory disk : Nat}
    (htwo : (create m location memory disk).1.tiers.length = 2) :
    ∃ a b mid log log', m.openTier .memory memory none = (.ok a, mid, log) ∧
      mid.openTier (.file location) disk none =
        (.ok b, (create m location memory disk).2.1, log') ∧
      (create m location memory disk).1.tiers = [a, b] := by
  simp only [create, build] at htwo ⊢
  generalize hfirst : (if 0 < memory then
    disabled.addTier m .memory memory none .memoryUnavailable
    else (disabled, m, [.memoryDisabled])) = first at htwo ⊢
  obtain ⟨cache, mid, memoryLog⟩ := first
  simp only at htwo ⊢
  generalize hsecond : (if 0 < disk then
    cache.addTier mid (.file location) disk none (.diskUnavailable location)
    else (cache, mid, [.diskDisabled])) = second at htwo ⊢
  obtain ⟨cache', m', diskLog⟩ := second
  simp only at htwo ⊢
  have hmemory := addTier_cases _ _ _ _ _ _ _ _ hfirst
  have hdisk := addTier_cases _ _ _ _ _ _ _ _ hsecond
  simp only at hmemory hdisk
  rcases hmemory with ⟨a, log, hopen, htiers⟩ | rfl
  · rcases hdisk with ⟨b, log', hopen', htiers'⟩ | rfl
    · exact ⟨a, b, mid, log, log', hopen, hopen', by rw [htiers', htiers]; rfl⟩
    · rw [htiers] at htwo
      cases htwo
  · rcases hdisk with ⟨b, log', -, htiers'⟩ | rfl
    · rw [htiers'] at htwo
      cases htwo
    · cases htwo

/-- A new cache with two tiers has one in memory and one on disk, each open on a
fresh database of its own. -/
theorem create_spec {location : String} {memory disk : Nat}
    (hnew : m.IsNew (.file location))
    (htwo : (create m location memory disk).1.tiers.length = 2) :
    ∃ a b, (create m location memory disk).1.tiers = [a, b] ∧ a ≠ b ∧
      Machine.Houses [a, b] (create m location memory disk).2.1 ∧
      (Machine.tierPlace a).tier (create m location memory disk).2.1 =
        { location := .memory, budget := memory } ∧
      (Machine.tierPlace b).tier (create m location memory disk).2.1 =
        { location := .file location, budget := disk } ∧
      (Machine.tierPlace a).db (create m location memory disk).2.1 = .fresh ∧
      (Machine.tierPlace b).db (create m location memory disk).2.1 = .fresh := by
  obtain ⟨a, b, mid, log, log', hopen, hopen', hpair⟩ := create_opened htwo
  generalize (create m location memory disk).2.1 = made at hopen' ⊢
  obtain ⟨rfl, hdatabases, htiers⟩ := Machine.openTier_new (show m.IsNew .memory from trivial) hopen
  obtain ⟨rfl, hdatabases', htiers'⟩ :=
    Machine.openTier_new (Machine.isNew_of_openTier_memory hnew hopen) hopen'
  rw [htiers, hdatabases] at htiers'
  rw [hdatabases] at hdatabases'
  have hfirst : made.openTierAt m.tiers.length =
      ⟨{ location := .memory, budget := memory }, m.databases.length⟩ := by
    simp [Machine.openTierAt, htiers']
  have hsecond : made.openTierAt mid.tiers.length =
      ⟨{ location := .file location, budget := disk }, m.databases.length + 1⟩ := by
    simp [Machine.openTierAt, htiers', htiers]
  refine ⟨_, _, hpair, by simp [htiers], ⟨?_, ?_, ?_⟩, ?_, ?_, ?_, ?_⟩
  · simp [htiers, htiers']
  · simp [hfirst, hsecond, hdatabases']
  · simp [hfirst, hsecond]
  · simp [Machine.tierPlace, hfirst]
  · simp [Machine.tierPlace, hsecond]
  · simp [Machine.tierPlace, Machine.database, hfirst, hdatabases']
  · simp [Machine.tierPlace, Machine.database, hsecond, hdatabases']

end Cache

end BlobCache
