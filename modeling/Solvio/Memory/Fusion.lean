import Mathlib.Algebra.Order.Field.Rat
import Mathlib.Data.List.Sort

namespace Solvio.Memory

inductive Strategy where
  | fts | semantic | rrf | weightedRrf | semanticDominant | exactBoost
deriving DecidableEq

/-- `HybridConfig`, with its defaults. -/
structure HybridConfig where
  strategy : Strategy := .semantic
  rrfK : Rat := 60
  semanticWeight : Rat := 1
  ftsWeight : Rat := 1
  exactBoost : Rat := 2
  dominantFtsWeight : Rat := 15 / 100

/-- The weights of the semantic arm and of the full-text arm. -/
def HybridConfig.weights (cfg : HybridConfig) : Rat × Rat :=
  match cfg.strategy with
  | .rrf => (1, 1)
  | .semanticDominant => (1, cfg.dominantFtsWeight)
  | _ => (cfg.semanticWeight, cfg.ftsWeight)

/-- What the ranks of an id in one arm add to its score. -/
def armScore (k weight : Rat) (arm : List String) (id : String) : Rat :=
  ((arm.zipIdx.filter (fun p => p.1 = id)).map (fun p => weight / (k + p.2 + 1))).sum

/-- The ids that share a significant token with the query. -/
def boosted (tokens : String → List String) (text : List (String × String)) (query : String) :
    List String :=
  (text.filter (fun p => (tokens query).any (· ∈ tokens p.2))).map Prod.fst

/-- `fuse`. -/
def fuse (tokens : String → List String) (ftsIds : List String) (semHits : List (String × Rat))
    (cfg : HybridConfig) (text : List (String × String)) (query : String) : List String :=
  let semIds := semHits.map Prod.fst
  match cfg.strategy with
  | .fts => ftsIds
  | .semantic => semIds
  | strategy =>
    let boost := if strategy = .exactBoost then boosted tokens text query else []
    let score := fun id => armScore cfg.rrfK cfg.weights.1 semIds id +
      armScore cfg.rrfK cfg.weights.2 ftsIds id + cfg.exactBoost * boost.count id
    let semRank := fun id => if id ∈ semIds then semIds.idxOf id else 10000
    (semIds ++ ftsIds ++ boost).eraseDups.insertionSort (fun a b =>
      score b < score a ∨ (score a = score b ∧ semRank a ≤ semRank b))

/-- Every strategy but the two that take one arm ranks what either arm has found. -/
theorem mem_fuse {tokens : String → List String} {ftsIds : List String}
    {semHits : List (String × Rat)} {cfg : HybridConfig} {text : List (String × String)}
    {query id : String} (hf : cfg.strategy ≠ .fts) (hs : cfg.strategy ≠ .semantic)
    (h : id ∈ ftsIds ∨ id ∈ semHits.map Prod.fst) :
    id ∈ fuse tokens ftsIds semHits cfg text query := by
  have hmem : ∀ boost : List String, id ∈ (semHits.map Prod.fst ++ ftsIds ++ boost).eraseDups := by
    intro boost
    rw [List.mem_eraseDups, List.mem_append, List.mem_append]
    rcases h with h | h
    · exact Or.inl (Or.inr h)
    · exact Or.inl (Or.inl h)
  unfold fuse
  cases hc : cfg.strategy with
  | fts => exact absurd hc hf
  | semantic => exact absurd hc hs
  | _ => exact (List.mem_insertionSort _).mpr (hmem _)

end Solvio.Memory
