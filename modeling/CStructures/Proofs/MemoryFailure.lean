import CStructures.Proofs.MemoryBooks

/-!
# Failed reallocations

`cstructures_realloc` does not look at the pointer that `realloc` returns. Whatever the
system has refused before, a refused reallocation erases the record of the block, which is
still allocated, and counts and records a block at NULL instead.
-/

namespace CStructures
open Lib

/-- An allocation that is counted and recorded changes the difference of the counters, by one or,
when the report has got a table besides, by two. -/
lemma ReportCalls.difference_ne {σ : Type} {c c' : Memory σ} (h : ReportCalls c.countAllocation c') :
    c'.gAllocations - c'.dDeallocations ≠ c.gAllocations - c.dDeallocations := by
  have hcounted : c.countAllocation.gAllocations = c.gAllocations + 1 := rfl
  have hsame : c.countAllocation.dDeallocations = c.dDeallocations := rfl
  cases h with
  | none ha hd =>
    rw [ha, hd, hcounted, hsame]
    grind
  | table ha hd =>
    rw [ha, hd, hcounted, hsame]
    grind
  | rehash ha hd =>
    rw [ha, hd, hcounted, hsame]
    grind

/-- What a refused reallocation of `p` is to leave: NULL is returned, the report has the same
records, with that of `p` and none of NULL, and no counter has moved. -/
structure BooksKept {σ : Type} (c : Memory σ) (p q : UInt64) (c' : Memory σ) : Prop where
  null : q = 0
  records : ∀ key info, Binds c'.gReport.table c'.gReport.values key info ↔
    Binds c.gReport.table c.gReport.values key info
  noNull : ¬Stored c'.gReport.table (pointerBytes 0)
  found : p ≠ 0 → Stored c'.gReport.table (pointerBytes p)
  usage : c'.gBytesInUse = c.gBytesInUse
  peak : c'.gBytesInUsePeak = c.gBytesInUsePeak
  difference : c'.gAllocations - c'.dDeallocations = c.gAllocations - c.dDeallocations

/-- In no reachable state does a refused reallocation keep the books, of a live block, of NULL
or of any other address. -/
theorem failed_realloc_never_kept {σ : Type} {S : System σ} {fuel : Nat} {c c₀ c₁ : Memory σ}
    {s' : σ} {m : BlockMap} {ls : List (MemoryCall × UInt64)} {p newSize : UInt64}
    (hinit : memoryInit S fuel c = some (0, c₀)) (hrun : Run (MemoryStep S) (c₀, ∅) ls (c₁, m))
    (hfail : S.realloc p newSize c₁.system = some (0, s')) :
    ¬∃ fuel q c', cstructuresRealloc S fuel p newSize c₁ = some (q, c') ∧ BooksKept c₁ p q c' := by
  rintro ⟨fuel', q, c', hcall, hkept⟩
  have hr : Readable c₁.gReport := (memoryInit_readable hinit).run hrun
  obtain ⟨s'', c2, hrealloc, hold, hrec⟩ := cstructuresRealloc_cases hcall
  obtain ⟨rfl, rfl⟩ := Prod.mk.inj (Option.some.inj (hrealloc.symm.trans hfail))
  rcases releaseOld_cases hold with ⟨rfl, rfl⟩ | ⟨hp0, hforget⟩
  · have hcalls := unlessIgnored_record_reportCalls (c := (c₁.setSystem s'').countAllocation) hr hrec
    exact hcalls.difference_ne hkept.difference
  · obtain ⟨hr2, hgone⟩ := forgetAllocation_readable (c := c₁.setSystem s'') hr hforget
    rcases (unlessIgnored_record_readable hr2 hrec).2 _ (hkept.found hp0) with heq | hold
    · exact hp0 (pointerBytes_injective heq)
    · exact hgone hold

def refusingSystem : System (UInt64 × BlockMap) := { stackSystem with realloc := fun _ _ s => some (0, s) }

/-- The record of `p` as `hashmap_find` sees it. -/
def findRecord (c : Memory (UInt64 × BlockMap)) (p : UInt64) : Option (Option ReportInfo) :=
  (hashmapFind 9 c.gReport (pointerBytes p)).map fun r => r.map fun info =>
    reportInfo (c.gReport.deref info)

lemma refusing_calls : ∃ c₀ c c',
    memoryInit refusingSystem 9 freshMemory = some (0, c₀) ∧
    Run (MemoryStep refusingSystem) (c₀, ∅) [(.malloc 16, 0x1d000)]
      (c, blocksAfter [(.malloc 16, 0x1d000)]) ∧
    refusingSystem.realloc 0x1d000 32 c.system = some (0, c.system) ∧
    cstructuresRealloc refusingSystem 9 0x1d000 32 c = some (0, c') ∧
    findRecord c 0x1d000 = some (some ⟨0x1d000, 16⟩) ∧ findRecord c' 0x1d000 = some none ∧
    findRecord c' 0 = some (some ⟨0, 32⟩) ∧ c.gBytesInUse = 16 ∧ c'.gBytesInUse = 32 := by
  have hcalls : ((memoryInit refusingSystem 9 freshMemory).bind fun r =>
      (memoryCall refusingSystem 9 r.2 (.malloc 16)).bind fun r' =>
        (cstructuresRealloc refusingSystem 9 0x1d000 32 r'.2).map fun r'' =>
          (r.1, [r'.1, r''.1, r'.2.gBytesInUse, r''.2.gBytesInUse],
            [findRecord r'.2 0x1d000, findRecord r''.2 0x1d000, findRecord r''.2 0])) =
      some (0, [0x1d000, 0, 16, 32], [some (some ⟨0x1d000, 16⟩), some none, some (some ⟨0, 32⟩)]) := by
    decide +kernel
  obtain ⟨⟨r₀, c₀⟩, hinit, hrest⟩ := Option.bind_eq_some_iff.mp hcalls
  obtain ⟨⟨p, c⟩, hmalloc, hrest'⟩ := Option.bind_eq_some_iff.mp hrest
  obtain ⟨⟨q, c'⟩, hrealloc, heq⟩ := Option.map_eq_some_iff.mp hrest'
  simp only [Prod.mk.injEq, List.cons.injEq, and_true] at heq
  obtain ⟨rfl, ⟨rfl, rfl, hbefore, hafter⟩, hfound, hgone, hnull⟩ := heq
  have hsize : (0 : UInt64) < 16 := by decide
  exact ⟨c₀, c, c', hinit, Run.cons ⟨hsize, ⟨9, hmalloc⟩, rfl⟩ (Run.nil _), rfl, hrealloc,
    hfound, hgone, hnull, hbefore, hafter⟩

theorem failed_realloc_never_kept_first : ∃ c₀ c,
    memoryInit refusingSystem 9 freshMemory = some (0, c₀) ∧
    Run (MemoryStep refusingSystem) (c₀, ∅) [(.malloc 16, 0x1d000)]
      (c, blocksAfter [(.malloc 16, 0x1d000)]) ∧
    ¬∃ fuel q c', cstructuresRealloc refusingSystem fuel 0x1d000 32 c = some (q, c') ∧
      BooksKept c 0x1d000 q c' := by
  obtain ⟨c₀, c, c', hinit, hrun, hfail, _⟩ := refusing_calls
  exact ⟨c₀, c, hinit, hrun, failed_realloc_never_kept hinit hrun hfail⟩

/-- The record of the block has gone, and NULL is recorded with the new size. -/
theorem failed_realloc_forgets_block : ∃ c₀ c c',
    memoryInit refusingSystem 9 freshMemory = some (0, c₀) ∧
    Run (MemoryStep refusingSystem) (c₀, ∅) [(.malloc 16, 0x1d000)]
      (c, blocksAfter [(.malloc 16, 0x1d000)]) ∧
    refusingSystem.realloc 0x1d000 32 c.system = some (0, c.system) ∧
    cstructuresRealloc refusingSystem 9 0x1d000 32 c = some (0, c') ∧
    findRecord c 0x1d000 = some (some ⟨0x1d000, 16⟩) ∧ findRecord c' 0x1d000 = some none ∧
    findRecord c' 0 = some (some ⟨0, 32⟩) ∧ c.gBytesInUse = 16 ∧ c'.gBytesInUse = 32 ∧
    ¬BooksKept c 0x1d000 0 c' := by
  obtain ⟨c₀, c, c', hinit, hrun, hfail, hcall, hfound, hgone, hnull, hbefore, hafter⟩ := refusing_calls
  refine ⟨c₀, c, c', hinit, hrun, hfail, hcall, hfound, hgone, hnull, hbefore, hafter, fun h => ?_⟩
  have husage := h.usage
  rw [hbefore, hafter] at husage
  exact absurd husage (by decide)

end CStructures
