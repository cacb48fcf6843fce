import CStructures.Lib.LiveBlocks
import CStructures.Lib.State
import Mathlib.Algebra.BigOperators.Group.List.Basic
import Mathlib.Algebra.Order.Group.Multiset

/-!
# Ownership of heap blocks

A program over a heap is described by the blocks that it owns before it runs and after it has
returned. Whatever else is live is a frame that it leaves alone, so the specifications of
programs that own different blocks compose. The calls of the heap that a program makes are
counted on their own.
-/

namespace CStructures.Lib

/-- Blocks with their sizes. A block with two owners would occur twice. -/
abbrev Footprint := Multiset (Sigma fun _ : UInt64 => UInt64)

/-- The functions of a heap. The grants of `malloc` and `realloc` have an address. -/
structure HeapFunctions (σ γ : Type) where
  malloc : UInt64 → StateT σ Option (Option γ)
  realloc : UInt64 → UInt64 → StateT σ Option (Option γ)
  free : UInt64 → StateT σ Option Unit

/-- As long as blocks of positive sizes are asked for and live blocks are released, the heap
grants every request and `inv` relates its state to the live blocks. -/
structure HeapFunctions.Keeps {σ γ : Type} (H : HeapFunctions σ γ) (addr : γ → UInt64)
    (inv : σ → BlockMap → Prop) : Prop where
  malloc : ∀ {s m n r s'}, inv s m → 0 < n → H.malloc n s = some (r, s') →
    ∃ g, r = some g ∧ addr g ∉ m ∧ inv s' (m.insert (addr g) n)
  realloc : ∀ {s m p n r s'}, inv s m → p ∈ m → 0 < n → H.realloc p n s = some (r, s') →
    ∃ g, r = some g ∧ addr g ∉ m.erase p ∧ inv s' ((m.erase p).insert (addr g) n)
  free : ∀ {s m p u s'}, inv s m → p ∈ m → H.free p s = some (u, s') → inv s' (m.erase p)

section Footprint

variable {m : BlockMap} {F : Footprint} {p n : UInt64}

lemma mem_of_entries (h : m.entries = ⟨p, n⟩ ::ₘ F) : p ∈ m :=
  Finmap.mem_of_lookup_eq_some (Finmap.lookup_eq_some_iff.mpr (h ▸ Multiset.mem_cons_self _ _))

lemma entries_erase (h : m.entries = ⟨p, n⟩ ::ₘ F) : (m.erase p).entries = F := by
  have hlookup : m.lookup p = some n :=
    Finmap.lookup_eq_some_iff.mpr (h ▸ Multiset.mem_cons_self _ _)
  have hinsert : (m.erase p).insert p n = m := by
    refine Finmap.ext_lookup fun q => ?_
    by_cases hq : q = p
    · subst hq
      rw [Finmap.lookup_insert, hlookup]
    · rw [Finmap.lookup_insert_of_ne _ hq, Finmap.lookup_erase_ne hq]
  have hentries := Finmap.entries_insert_of_notMem (b := n) (Finmap.notMem_erase_self (s := m) (a := p))
  rw [hinsert, h] at hentries
  exact ((Multiset.cons_inj_right _).mp hentries).symm

lemma card_entries (m : BlockMap) : m.entries.card = m.keys.card :=
  (Multiset.card_map Sigma.fst m.entries).symm

lemma totalSize_eq_sum (m : BlockMap) : totalSize m = (m.entries.map fun b => b.2.toNat).sum := by
  have hkeys : totalSize m = (m.entries.map fun b => blockSize m b.1).sum :=
    congrArg Multiset.sum (Multiset.map_map (blockSize m) Sigma.fst m.entries)
  rw [hkeys]
  refine congrArg Multiset.sum (Multiset.map_congr rfl fun b hb => ?_)
  exact blockSize_of_lookup (Finmap.lookup_eq_some_iff.mpr hb)

/-- Replacing one of several owners. -/
lemma sum_map_set {α : Type} (f : α → Footprint) {l : List α} {i : Nat} {x : α} (h : l[i]? = some x) :
    ∃ R, (l.map f).sum = f x + R ∧ ∀ y, ((l.set i y).map f).sum = f y + R := by
  obtain ⟨hi, rfl⟩ := List.getElem?_eq_some_iff.mp h
  refine ⟨((l.take i).map f).sum + ((l.drop (i + 1)).map f).sum, ?_, fun y => ?_⟩
  · conv_lhs => rw [← List.take_append_drop i l, List.drop_eq_getElem_cons hi]
    rw [List.map_append, List.map_cons, List.sum_append, List.sum_cons]
    exact add_left_comm _ _ _
  · rw [List.set_eq_take_append_cons_drop, if_pos hi, List.map_append, List.map_cons,
      List.sum_append, List.sum_cons]
    exact add_left_comm _ _ _

end Footprint

section Owns

variable {σ γ α β : Type} {inv : σ → BlockMap → Prop} {F G : Footprint} {prog : StateT σ Option α}
  {Q Q' : α → Footprint → Prop} {rest : α → StateT σ Option β} {QR : β → Footprint → Prop}

/-- From the blocks of `F`, the program returns with blocks that `Q` describes. -/
def Owns (inv : σ → BlockMap → Prop) (F : Footprint) (prog : StateT σ Option α)
    (Q : α → Footprint → Prop) : Prop :=
  ∀ s m R r s', inv s m → m.entries = F + R → prog s = some (r, s') →
    ∃ F' m', Q r F' ∧ inv s' m' ∧ m'.entries = F' + R

lemma Owns.mono (h : Owns inv F prog Q) (hQ : ∀ r F', Q r F' → Q' r F') : Owns inv F prog Q' := by
  intro s m R r s' hinv hentries hprog
  obtain ⟨F', m', hpost, hinv', hentries'⟩ := h s m R r s' hinv hentries hprog
  exact ⟨F', m', hQ r F' hpost, hinv', hentries'⟩

/-- Blocks that the program does not use stay as they are. -/
lemma Owns.frame (h : Owns inv F prog Q) :
    Owns inv (F + G) prog fun r F' => ∃ F₁, Q r F₁ ∧ F' = F₁ + G := by
  intro s m R r s' hinv hentries hprog
  obtain ⟨F', m', hpost, hinv', hentries'⟩ :=
    h s m (G + R) r s' hinv (by rw [hentries, add_assoc]) hprog
  exact ⟨F' + G, m', ⟨F', hpost, rfl⟩, hinv', by rw [hentries', add_assoc]⟩

lemma Owns.pure {a : α} (h : Q a F) : Owns inv F (Pure.pure a) Q := by
  intro s m R r s' hinv hentries hprog
  obtain ⟨rfl, rfl⟩ := pure_eq_some.mp hprog
  exact ⟨F, m, h, hinv, hentries⟩

lemma Owns.bind (h : Owns inv F prog Q) (hrest : ∀ r F', Q r F' → Owns inv F' (rest r) QR) :
    Owns inv F (prog >>= rest) QR := by
  intro s m R b s' hinv hentries hprog
  obtain ⟨r, s1, hfirst, hsecond⟩ := bind_eq_some.mp hprog
  obtain ⟨F', m', hpost, hinv', hentries'⟩ := h s m R r s1 hinv hentries hfirst
  exact hrest r F' hpost s1 m' R b s' hinv' hentries' hsecond

section Functions

variable {H : HeapFunctions σ γ} {addr : γ → UInt64} {p n k : UInt64}

lemma HeapFunctions.Keeps.owns_malloc (hH : H.Keeps addr inv) (hn : 0 < n) :
    Owns inv 0 (H.malloc n) fun r F => ∃ g, r = some g ∧ F = {⟨addr g, n⟩} := by
  intro s m R r s' hinv hentries hprog
  obtain ⟨g, rfl, hfresh, hinv'⟩ := hH.malloc hinv hn hprog
  refine ⟨_, _, ⟨g, rfl, rfl⟩, hinv', ?_⟩
  rw [Finmap.entries_insert_of_notMem hfresh, hentries, zero_add, Multiset.singleton_add]

lemma HeapFunctions.Keeps.owns_realloc (hH : H.Keeps addr inv) (hn : 0 < n) :
    Owns inv {⟨p, k⟩} (H.realloc p n) fun r F => ∃ g, r = some g ∧ F = {⟨addr g, n⟩} := by
  intro s m R r s' hinv hentries hprog
  rw [Multiset.singleton_add] at hentries
  obtain ⟨g, rfl, hfresh, hinv'⟩ := hH.realloc hinv (mem_of_entries hentries) hn hprog
  refine ⟨_, _, ⟨g, rfl, rfl⟩, hinv', ?_⟩
  rw [Finmap.entries_insert_of_notMem hfresh, entries_erase hentries, Multiset.singleton_add]

lemma HeapFunctions.Keeps.owns_free (hH : H.Keeps addr inv) :
    Owns inv {⟨p, k⟩} (H.free p) fun _ F => F = 0 := by
  intro s m R r s' hinv hentries hprog
  rw [Multiset.singleton_add] at hentries
  exact ⟨0, _, rfl, hH.free hinv (mem_of_entries hentries) hprog,
    by rw [entries_erase hentries, zero_add]⟩

end Functions

end Owns

section Spends

variable {σ γ α β : Type} {good : σ → Prop} {count : σ → Nat} {k l : Nat} {prog : StateT σ Option α}
  {rest : α → StateT σ Option β}

/-- From a good state the program returns in a good state, and has added at most `k` to the
counter. -/
def Spends (good : σ → Prop) (count : σ → Nat) (k : Nat) (prog : StateT σ Option α) : Prop :=
  ∀ s r s', good s → prog s = some (r, s') → good s' ∧ count s' ≤ count s + k

/-- A call of one of the functions of the heap adds at most one to the counter. -/
structure HeapFunctions.Counts (H : HeapFunctions σ γ) (good : σ → Prop) (count : σ → Nat) : Prop where
  malloc : ∀ n, Spends good count 1 (H.malloc n)
  realloc : ∀ p n, Spends good count 1 (H.realloc p n)
  free : ∀ p, Spends good count 1 (H.free p)

lemma Spends.mono (h : Spends good count k prog) (hkl : k ≤ l) : Spends good count l prog := by
  intro s r s' hs hprog
  obtain ⟨hs', hle⟩ := h s r s' hs hprog
  exact ⟨hs', hle.trans (Nat.add_le_add_left hkl _)⟩

lemma Spends.pure (k : Nat) (a : α) : Spends good count k (Pure.pure a) := by
  intro s r s' hs hprog
  obtain ⟨_, rfl⟩ := pure_eq_some.mp hprog
  exact ⟨hs, Nat.le_add_right _ _⟩

lemma Spends.bind (h : Spends good count k prog) (hrest : ∀ r, Spends good count l (rest r)) :
    Spends good count (k + l) (prog >>= rest) := by
  intro s b s' hs hprog
  obtain ⟨r, s1, hfirst, hsecond⟩ := bind_eq_some.mp hprog
  obtain ⟨hs1, hle⟩ := h s r s1 hs hfirst
  obtain ⟨hs', hle'⟩ := hrest r s1 b s' hs1 hsecond
  exact ⟨hs', by omega⟩

/-- Arithmetic after the calls is free. -/
lemma Spends.thenPure (h : Spends good count k prog) (f : α → β) :
    Spends good count k (prog >>= fun r => Pure.pure (f r)) :=
  h.bind fun r => Spends.pure 0 (f r)

end Spends

end CStructures.Lib
