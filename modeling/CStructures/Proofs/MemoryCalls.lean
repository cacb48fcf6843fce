import CStructures.Proofs.MemoryReport

/-!
# Calls of the allocation tracker

Each tracking function taken apart into the call of the C library and the changes of the
tracker's variables, and the runs of well-behaved clients.
-/

namespace CStructures
open Lib

/-- Sizes are positive, and only live blocks are freed or reallocated. -/
def MemoryCall.WellBehaved (m : BlockMap) : MemoryCall → Prop
  | .malloc size => 0 < size
  | .realloc p newSize => (p = 0 ∨ p ∈ m) ∧ 0 < newSize
  | .free p => p ∈ m

instance MemoryCall.decidableWellBehaved (m : BlockMap) (call : MemoryCall) :
    Decidable (call.WellBehaved m) := by
  cases call <;> unfold MemoryCall.WellBehaved <;> infer_instance

/-- The live blocks of the client after a call that was answered with an address. A failed
allocation changes nothing. -/
def blocksAfterCall (m : BlockMap) : MemoryCall × UInt64 → BlockMap
  | (.malloc size, p) => if p = 0 then m else m.insert p size
  | (.realloc p newSize, q) => if q = 0 then m else (m.erase p).insert q newSize
  | (.free p, _) => m.erase p

def blocksAfter (ls : List (MemoryCall × UInt64)) : BlockMap := ls.foldl blocksAfterCall ∅

def MemoryStep {σ : Type} (S : System σ) (c : Memory σ × BlockMap) (l : MemoryCall × UInt64)
    (c' : Memory σ × BlockMap) : Prop :=
  l.1.WellBehaved c.2 ∧ (∃ fuel, memoryCall S fuel c.1 l.1 = some (l.2, c'.1)) ∧
    c'.2 = blocksAfterCall c.2 l

section Inversion

variable {σ α : Type} {S : System σ} {A : Allocator (Memory σ)} {fuel : Nat} {c c' : Memory σ}
  {p n : UInt64}

lemma onSystem_eq_some {call : StateT σ Option α} {r : α} :
    onSystem call c = some (r, c') ↔
      ∃ s', call c.system = some (r, s') ∧ c' = c.setSystem s' := by
  rw [onSystem, Option.map_eq_some_iff]
  constructor
  · rintro ⟨⟨r', s'⟩, h, heq⟩
    obtain ⟨rfl, rfl⟩ := Prod.mk.inj heq
    exact ⟨s', h, rfl⟩
  · rintro ⟨s', h, rfl⟩
    exact ⟨(r, s'), h, rfl⟩

lemma unlessIgnored_of_ignored {body : StateT (Memory σ) Option Unit}
    (h : c.gIgnoreHmMalloc = true) : unlessIgnored body c = some ((), c) := by
  change (if c.gIgnoreHmMalloc = true then pure () else body : StateT (Memory σ) Option Unit) c = _
  rw [if_pos h]
  rfl

lemma unlessIgnored_of_tracking {body : StateT (Memory σ) Option Unit}
    (h : c.gIgnoreHmMalloc = false) : unlessIgnored body c = body c := by
  change (if c.gIgnoreHmMalloc = true then pure () else body : StateT (Memory σ) Option Unit) c = _
  rw [if_neg (by rw [h]; decide)]

lemma unlessIgnored_eq_of_ignored {body : StateT (Memory σ) Option Unit} (hc : c.gIgnoreHmMalloc = true)
    (h : unlessIgnored body c = some ((), c')) : c' = c := by
  rw [unlessIgnored_of_ignored hc, Option.some.injEq, Prod.mk.injEq] at h
  exact h.2.symm

/-- Either the flag is set and nothing happens, or the body has run. -/
lemma unlessIgnored_cases {body : StateT (Memory σ) Option Unit}
    (h : unlessIgnored body c = some ((), c')) : c' = c ∨ body c = some ((), c') := by
  cases hflag : c.gIgnoreHmMalloc with
  | true => exact Or.inl (unlessIgnored_eq_of_ignored hflag h)
  | false =>
    rw [unlessIgnored_of_tracking hflag] at h
    exact Or.inr h

lemma recordAllocation_cases (h : recordAllocation A fuel p n c = some ((), c')) :
    ∃ status report c₁, hashmapInsert A fuel c.gReport (pointerBytes p)
        (some (ReportInfo.bytes ⟨p, n⟩)) ((c.addBytes n).setIgnore true) = some ((status, report), c₁) ∧
      c' = (c₁.setReport report).setIgnore false := by
  rw [recordAllocation, bind_eq_some] at h
  obtain ⟨_, c1, hmod, h⟩ := h
  obtain rfl := modify_eq_some.mp hmod
  obtain ⟨_, _, hget, h⟩ := bind_eq_some.mp h
  obtain ⟨rfl, rfl⟩ := get_eq_some.mp hget
  obtain ⟨⟨status, report⟩, c2, hins, h⟩ := bind_eq_some.mp h
  exact ⟨status, report, c2, hins, (modify_eq_some.mp h).symm⟩

/-- The tracker after the record at `info`, if any, has been erased. -/
def Memory.erased (c : Memory σ) (report : Hashmap) (info : Option UInt64) : Memory σ :=
  match info with
  | some info => (c.setReport report).subBytes (reportInfo (report.deref info)).size
  | none => c.setReport report

lemma forgetAllocation_cases (h : forgetAllocation fuel p c = some ((), c')) :
    ∃ info report, hashmapErase fuel c.gReport (pointerBytes p) = some (info, report) ∧
      c' = c.erased report info := by
  rw [forgetAllocation, bind_eq_some] at h
  obtain ⟨_, _, hget, h⟩ := h
  obtain ⟨rfl, rfl⟩ := get_eq_some.mp hget
  obtain ⟨⟨info, report⟩, herase, h⟩ := lift_bind_eq_some.mp h
  refine ⟨info, report, herase, ?_⟩
  cases info with
  | none => exact (set_eq_some.mp h).symm
  | some info => exact (set_eq_some.mp h).symm

def Memory.reset (c : Memory σ) : Memory σ :=
  { c with
    gAllocations := 0
    dDeallocations := 0
    gBytesInUse := 0
    gBytesInUsePeak := 0
    gIgnoreHmMalloc := true }

lemma memoryInit_cases (h : memoryInit S fuel c = some (0, c')) :
    ∃ report c₁, hashmapInitWithOptions (trackedAllocator S fuel) 8 16 4096 hash32Ptr c.reset =
        some (some report, c₁) ∧ c' = (c₁.setReport report).setIgnore false := by
  rw [memoryInit, bind_eq_some] at h
  obtain ⟨_, c1, hreset, h⟩ := h
  obtain rfl : c.reset = c1 := modify_eq_some.mp hreset
  obtain ⟨r, c2, hinit, h⟩ := bind_eq_some.mp h
  cases r with
  | none =>
    obtain ⟨hno, _⟩ := pure_eq_some.mp h
    cases hno
  | some report =>
    obtain ⟨_, c3, hset, h⟩ := bind_eq_some.mp h
    obtain rfl := modify_eq_some.mp hset
    obtain ⟨_, rfl⟩ := pure_eq_some.mp h
    exact ⟨report, c2, hinit, rfl⟩

/-- `cstructures_free`: the record goes, then the block. -/
lemma cstructuresFree_cases {u : Unit} (h : cstructuresFree S fuel p c = some (u, c')) :
    ∃ c₁, unlessIgnored (forgetAllocation fuel p) c = some ((), c₁) ∧
      (p = 0 ∧ c' = c₁ ∨
        p ≠ 0 ∧ ∃ s', S.free p c₁.system = some ((), s') ∧
          c' = c₁.countDeallocation.setSystem s') := by
  rw [cstructuresFree, bind_eq_some] at h
  obtain ⟨_, c1, hforget, h⟩ := h
  refine ⟨c1, hforget, ?_⟩
  by_cases hp : p = 0
  · rw [if_pos hp] at h
    exact Or.inl ⟨hp, (pure_eq_some.mp h).2.symm⟩
  · rw [if_neg hp] at h
    obtain ⟨_, c2, hmod, h⟩ := bind_eq_some.mp h
    obtain rfl := modify_eq_some.mp hmod
    obtain ⟨s', hfree, rfl⟩ := onSystem_eq_some.mp h
    exact Or.inr ⟨hp, s', hfree, rfl⟩

/-- `cstructures_malloc`: the block comes, then its record. -/
lemma cstructuresMalloc_cases {r : Option Block} (h : cstructuresMalloc S fuel n c = some (r, c')) :
    (∃ s', S.malloc n c.system = some (none, s') ∧ r = none ∧ c' = c.setSystem s') ∨
      ∃ g s' fuel', S.malloc n c.system = some (some g, s') ∧ r = some (mallocBlock n.toNat g) ∧
        unlessIgnored (recordAllocation (trackedAllocator S fuel') fuel' g.addr n)
          (c.setSystem s').countAllocation = some ((), c') := by
  cases fuel with
  | zero => cases h
  | succ fuel =>
    rw [cstructuresMalloc, bind_eq_some] at h
    obtain ⟨g, c1, hsystem, h⟩ := h
    obtain ⟨s', hmalloc, rfl⟩ := onSystem_eq_some.mp hsystem
    cases g with
    | none =>
      obtain ⟨hr, hc⟩ := pure_eq_some.mp h
      exact Or.inl ⟨s', hmalloc, hr.symm, hc.symm⟩
    | some g =>
      obtain ⟨_, c2, hmod, h⟩ := bind_eq_some.mp h
      obtain rfl := modify_eq_some.mp hmod
      obtain ⟨_, c3, hrec, h⟩ := bind_eq_some.mp h
      obtain ⟨hr, rfl⟩ := pure_eq_some.mp h
      exact Or.inr ⟨g, s', fuel, hmalloc, hr.symm, hrec⟩

/-- `cstructures_realloc`: the block moves, the old record goes, and a new one comes. -/
lemma cstructuresRealloc_cases {q : UInt64} (h : cstructuresRealloc S fuel p n c = some (q, c')) :
    ∃ s' c₁, S.realloc p n c.system = some (q, s') ∧
      releaseOld fuel p (c.setSystem s') = some ((), c₁) ∧
      unlessIgnored (recordAllocation (trackedAllocator S fuel) fuel q n) c₁ = some ((), c') := by
  rw [cstructuresRealloc, bind_eq_some] at h
  obtain ⟨q', c1, hsystem, h⟩ := h
  obtain ⟨s', hrealloc, rfl⟩ := onSystem_eq_some.mp hsystem
  obtain ⟨_, c2, hold, h⟩ := bind_eq_some.mp h
  obtain ⟨_, c3, hrec, h⟩ := bind_eq_some.mp h
  obtain ⟨rfl, rfl⟩ := pure_eq_some.mp h
  exact ⟨s', c2, hrealloc, hold, hrec⟩

lemma releaseOld_cases (h : releaseOld fuel p c = some ((), c')) :
    p = 0 ∧ c' = c.countAllocation ∨ p ≠ 0 ∧ forgetAllocation fuel p c = some ((), c') := by
  unfold releaseOld at h
  split_ifs at h with hp
  · exact Or.inl ⟨hp, (modify_eq_some.mp h).symm⟩
  · exact Or.inr ⟨hp, h⟩

lemma cstructuresMalloc_ignored {r : Option Block} (hc : c.gIgnoreHmMalloc = true)
    (h : cstructuresMalloc S fuel n c = some (r, c')) :
    (∃ s', S.malloc n c.system = some (none, s') ∧ r = none ∧ c' = c.setSystem s') ∨
      ∃ g s', S.malloc n c.system = some (some g, s') ∧ r = some (mallocBlock n.toNat g) ∧
        c' = (c.setSystem s').countAllocation := by
  rcases cstructuresMalloc_cases h with hnull | ⟨g, s', fuel', hmalloc, hr, hrec⟩
  · exact Or.inl hnull
  · have hc' : (c.setSystem s').countAllocation.gIgnoreHmMalloc = true := hc
    exact Or.inr ⟨g, s', hmalloc, hr, unlessIgnored_eq_of_ignored hc' hrec⟩

lemma cstructuresFree_ignored {u : Unit} (hc : c.gIgnoreHmMalloc = true) (hp : p ≠ 0)
    (h : cstructuresFree S fuel p c = some (u, c')) :
    ∃ s', S.free p c.system = some ((), s') ∧ c' = c.countDeallocation.setSystem s' := by
  obtain ⟨c1, hforget, hcase⟩ := cstructuresFree_cases h
  obtain rfl := unlessIgnored_eq_of_ignored hc hforget
  rcases hcase with ⟨h0, _⟩ | ⟨_, hfree⟩
  · exact absurd h0 hp
  · exact hfree

lemma cstructuresFree_of_ignored {s' : σ} (hc : c.gIgnoreHmMalloc = true) (hp : p ≠ 0)
    (h : S.free p c.system = some ((), s')) :
    cstructuresFree S fuel p c = some ((), c.countDeallocation.setSystem s') := by
  rw [cstructuresFree, bind_eq_some]
  refine ⟨(), c, unlessIgnored_of_ignored hc, ?_⟩
  rw [if_neg hp]
  exact bind_eq_some.mpr ⟨(), c.countDeallocation, modify_eq_some.mpr rfl,
    onSystem_eq_some.mpr ⟨s', h, rfl⟩⟩

/-- A rehash of the report makes one allocation and one deallocation. -/
lemma moved_ignored {hm new : Hashmap} (hc : c.gIgnoreHmMalloc = true) (hp : hm.storage.addr ≠ 0)
    (h : Hashmap.Moved (trackedAllocator S fuel) hm new c c') :
    ∃ g s₁ s₂, S.malloc hm.expandedSize c.system = some (some g, s₁) ∧
      S.free hm.storage.addr s₁ = some ((), s₂) ∧ new.storage.addr = g.addr ∧
      c' = (c.setSystem s₂).countAllocation.countDeallocation := by
  obtain ⟨b, c1, hmalloc, hfree, haddr⟩ := h
  rcases cstructuresMalloc_ignored hc hmalloc with ⟨_, _, hno, _⟩ | ⟨g, s1, hg, hb, rfl⟩
  · cases hno
  have hc' : (c.setSystem s1).countAllocation.gIgnoreHmMalloc = true := hc
  obtain ⟨s2, hs2, rfl⟩ := cstructuresFree_ignored hc' hp hfree
  rw [Option.some.injEq] at hb
  subst hb
  exact ⟨g, s1, s2, hg, hs2, haddr, rfl⟩

end Inversion

end CStructures
