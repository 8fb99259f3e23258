import BlobCache.Cache.Tier

/-!
# Caches made of caches

To its user a cache is three functions that never fail (`FileCache`): a put
that cannot be completed is dropped, a get that runs into trouble finds
nothing, and both are reported.  A tier is such a cache (`FileCache.ofTier`),
and so is a list of caches (`FileCache.levels`): puts go to every level, in
order, and a get is answered by the first level that has the key.  What a later
level finds is not copied into the earlier ones.

The state `σ` is whatever the caches live in; a tier is given by where it and
its database are found in that state.
-/

namespace BlobCache

/-- A cache over a state `σ`, as its user sees it. -/
structure FileCache (σ : Type) where
  /-- Cache a file under a key. -/
  put : String → Source → σ → σ × List Event
  /-- Look a key up. -/
  get : String → σ → Option Extracted × σ × List Event
  /-- Release what the cache holds. -/
  close : σ → σ × List Event

/-- Where a tier is found in a state: the tier, its database, the directory its
payloads go to, and how both are put back. -/
structure TierPlace (σ : Type) where
  tier : σ → Tier
  db : σ → Db
  directory : σ → Option String
  update : Tier → Db → σ → σ

namespace FileCache

variable {σ : Type}

/-- A tier as a cache: failures are reported and otherwise ignored. -/
def ofTier (place : TierPlace σ) : FileCache σ where
  put key source s :=
    let tier := place.tier s
    let done := tier.tryPut key source (place.db s)
    let failure : List Event := match done.result with
      | .ok _ => []
      | .error _ => [.putFailed tier.name key source.path]
    (place.update tier done.db s, done.log ++ failure)
  get key s :=
    let tier := place.tier s
    let done := tier.tryGet (place.directory s) key (place.db s)
    match done.result with
    | .ok found => (found, place.update tier done.db s, done.log)
    | .error _ =>
      (none, place.update tier done.db s, done.log ++ [.getFailed tier.name key])
  close s :=
    let (tier, log) := (place.tier s).close
    (place.update tier (place.db s) s, log)

/-- Do one thing after the other and collect the reports. -/
def inTurn (steps : List (σ → σ × List Event)) (s : σ) : σ × List Event :=
  steps.foldl
    (fun (s, log) step =>
      let (s, more) := step s
      (s, log ++ more))
    (s, [])

/-- Ask the levels in order, the first of them having the number `level`. -/
def firstHit (key : String) : Nat → List (FileCache σ) → σ →
    Option Extracted × σ × List Event
  | _, [], s => (none, s, [])
  | level, cache :: rest, s =>
    match cache.get key s with
    | (some found, s, log) => (some found, s, log ++ [.served key level])
    | (none, s, log) =>
      let (found, s, more) := firstHit key (level + 1) rest s
      (found, s, log ++ more)

/-- The cache made of `caches`, fastest first. -/
def levels (caches : List (FileCache σ)) : FileCache σ where
  put key source := inTurn (caches.map fun cache => cache.put key source)
  get key := firstHit key 0 caches
  close := inTurn (caches.map FileCache.close)

end FileCache

end BlobCache
