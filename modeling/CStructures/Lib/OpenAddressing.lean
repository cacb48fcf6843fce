import Mathlib.Data.Finmap
import Mathlib.Data.Finset.Card
import Mathlib.Algebra.Order.Group.Nat

/-!
# Open addressing

A hash table with open addressing is a function from positions to cells, and a probe path
assigns to each key the sequence of positions that a search for it visits. Nothing is
assumed about the paths: they may collide, repeat and miss positions. A table is well
formed when every stored key lies on its own path before the first unused cell and is
stored once. The values live in a separate array, as in a table whose cells hold keys only.
-/

namespace CStructures.Lib

inductive Cell (K : Type*)
  | unused
  | tombstone
  | live (k : K)
  deriving DecidableEq

namespace Cell

variable {K : Type*}

def isLive : Cell K → Bool
  | live _ => true
  | _ => false

def isUnused : Cell K → Bool
  | unused => true
  | _ => false

def isTombstone : Cell K → Bool
  | tombstone => true
  | _ => false

lemma isLive_iff {c : Cell K} : c.isLive = true ↔ ∃ k, c = live k := by
  cases c <;> simp [isLive]

lemma isUnused_iff {c : Cell K} : c.isUnused = true ↔ c = unused := by
  cases c <;> simp [isUnused]

end Cell

variable {K V P : Type*} (path : K → Nat → P) (t : P → Cell K) (val : P → V)

/-- A search for `k` goes past its first `n` positions. -/
def Passes (k : K) (n : Nat) : Prop :=
  ∀ j < n, t (path k j) ≠ .unused ∧ t (path k j) ≠ .live k

def Stored (t : P → Cell K) (k : K) : Prop := ∃ p, t p = .live k

/-- The table holds key `k` with value `v`. -/
def Binds (t : P → Cell K) (val : P → V) (k : K) (v : V) : Prop := ∃ p, t p = .live k ∧ val p = v

structure WellFormed : Prop where
  reach : ∀ p k, t p = .live k → ∃ n, path k n = p ∧ ∀ j < n, t (path k j) ≠ .unused
  unique : ∀ p q k, t p = .live k → t q = .live k → p = q

/-- A position at which a search that ended on an unused cell may store its key: a
tombstone passed on the way, or that cell when there was none. -/
def Storable (k : K) (n : Nat) (q : P) : Prop :=
  (q = path k n ∧ ∀ j < n, t (path k j) ≠ .tombstone) ∨ ∃ j < n, q = path k j ∧ t q = .tombstone

variable {path t val}

lemma Storable.not_live {k k' : K} {n : Nat} {q : P} (hn : t (path k n) = .unused)
    (h : Storable path t k n q) : t q ≠ .live k' := by
  rcases h with ⟨rfl, _⟩ | ⟨j, _, _, h⟩
  · simp [hn]
  · simp [h]

/-- The search for a stored key meets it before any unused cell. -/
theorem WellFormed.not_stored (h : WellFormed path t) {k : K} {n : Nat} (hp : Passes path t k n)
    (hn : t (path k n) = .unused) : ¬Stored t k := by
  rintro ⟨p, hk⟩
  obtain ⟨m, rfl, hm⟩ := h.reach p k hk
  rcases Nat.lt_trichotomy m n with hlt | rfl | hlt
  · exact (hp m hlt).2 hk
  · simp [hn] at hk
  · exact hm n hlt hn

lemma Binds.stored {k : K} {v : V} (h : Binds t val k v) : Stored t k :=
  let ⟨p, hp, _⟩ := h
  ⟨p, hp⟩

lemma stored_iff_binds (val : P → V) {k : K} : Stored t k ↔ ∃ v, Binds t val k v :=
  ⟨fun ⟨p, hp⟩ => ⟨val p, p, hp, rfl⟩, fun ⟨_, h⟩ => h.stored⟩

section Update

variable [DecidableEq P] {k k' : K} {n : Nat} {q : P}

theorem WellFormed.store (h : WellFormed path t) (hp : Passes path t k n)
    (hn : t (path k n) = .unused) (hq : Storable path t k n q) :
    WellFormed path (Function.update t q (.live k)) where
  reach := by
    have hkeep : ∀ p, t p ≠ .unused → Function.update t q (.live k) p ≠ .unused := by
      intro p hp
      by_cases hpq : p = q
      · simp [hpq]
      · rwa [Function.update_of_ne hpq]
    intro p k' hpk
    by_cases hpq : p = q
    · subst hpq
      rw [Function.update_self, Cell.live.injEq] at hpk
      subst hpk
      rcases hq with ⟨rfl, _⟩ | ⟨j, hj, rfl, _⟩
      · exact ⟨n, rfl, fun i hi => hkeep _ (hp i hi).1⟩
      · exact ⟨j, rfl, fun i hi => hkeep _ (hp i (by omega)).1⟩
    · rw [Function.update_of_ne hpq] at hpk
      obtain ⟨m, hm, hclear⟩ := h.reach p k' hpk
      exact ⟨m, hm, fun j hj => hkeep _ (hclear j hj)⟩
  unique := by
    have hns := h.not_stored hp hn
    intro p p' k' hpk hpk'
    by_cases hpq : p = q <;> by_cases hpq' : p' = q
    · rw [hpq, hpq']
    · subst hpq
      rw [Function.update_self, Cell.live.injEq] at hpk
      rw [Function.update_of_ne hpq', ← hpk] at hpk'
      exact absurd ⟨p', hpk'⟩ hns
    · subst hpq'
      rw [Function.update_self, Cell.live.injEq] at hpk'
      rw [Function.update_of_ne hpq, ← hpk'] at hpk
      exact absurd ⟨p, hpk⟩ hns
    · rw [Function.update_of_ne hpq] at hpk
      rw [Function.update_of_ne hpq'] at hpk'
      exact h.unique p p' k' hpk hpk'

theorem WellFormed.bury (h : WellFormed path t) (q : P) :
    WellFormed path (Function.update t q .tombstone) where
  reach := by
    intro p k' hpk
    have hpq : p ≠ q := by
      rintro rfl
      simp at hpk
    rw [Function.update_of_ne hpq] at hpk
    obtain ⟨m, hm, hclear⟩ := h.reach p k' hpk
    refine ⟨m, hm, fun j hj => ?_⟩
    by_cases hjq : path k' j = q
    · simp [hjq]
    · rw [Function.update_of_ne hjq]
      exact hclear j hj
  unique := by
    intro p p' k' hpk hpk'
    have hne : ∀ r, Function.update t q .tombstone r = .live k' → t r = .live k' := by
      intro r hr
      by_cases hrq : r = q
      · simp [hrq] at hr
      · rwa [Function.update_of_ne hrq] at hr
    exact h.unique p p' k' (hne p hpk) (hne p' hpk')

lemma binds_store {val' : P → V} {v w : V} (hq : ∀ k, t q ≠ .live k) (hv : val' q = v)
    (hval : ∀ p, p ≠ q → (∃ k, t p = .live k) → val' p = val p) :
    Binds (Function.update t q (.live k)) val' k' w ↔ (k' = k ∧ w = v) ∨ Binds t val k' w := by
  constructor
  · rintro ⟨p, hp, rfl⟩
    by_cases hpq : p = q
    · subst hpq
      rw [Function.update_self, Cell.live.injEq] at hp
      exact Or.inl ⟨hp.symm, hv⟩
    · rw [Function.update_of_ne hpq] at hp
      exact Or.inr ⟨p, hp, (hval p hpq ⟨k', hp⟩).symm⟩
  · rintro (⟨rfl, rfl⟩ | ⟨p, hp, rfl⟩)
    · exact ⟨q, by simp, hv⟩
    · have hpq : p ≠ q := by
        rintro rfl
        exact hq k' hp
      exact ⟨p, by rwa [Function.update_of_ne hpq], hval p hpq ⟨k', hp⟩⟩

lemma stored_store (hq : ∀ k, t q ≠ .live k) :
    Stored (Function.update t q (.live k)) k' ↔ k' = k ∨ Stored t k' := by
  have h : Binds (Function.update t q (.live k)) (fun _ => ()) k' () ↔
      (k' = k ∧ () = ()) ∨ Binds t (fun _ => ()) k' () := binds_store hq rfl (fun _ _ _ => rfl)
  simpa [Binds, Stored] using h

lemma WellFormed.binds_bury {val' : P → V} {w : V} (h : WellFormed path t) (hq : t q = .live k)
    (hval : ∀ p, p ≠ q → (∃ k, t p = .live k) → val' p = val p) :
    Binds (Function.update t q .tombstone) val' k' w ↔ k' ≠ k ∧ Binds t val k' w := by
  constructor
  · rintro ⟨p, hp, rfl⟩
    have hpq : p ≠ q := by
      rintro rfl
      simp at hp
    rw [Function.update_of_ne hpq] at hp
    refine ⟨?_, p, hp, (hval p hpq ⟨k', hp⟩).symm⟩
    rintro rfl
    exact hpq (h.unique p q k' hp hq)
  · rintro ⟨hne, p, hp, rfl⟩
    have hpq : p ≠ q := by
      rintro rfl
      rw [hq, Cell.live.injEq] at hp
      exact hne hp.symm
    exact ⟨p, by rwa [Function.update_of_ne hpq], hval p hpq ⟨k', hp⟩⟩

end Update

/-- The number of cells of the finite region `ps` that satisfy `f`. -/
def cellCount (ps : Finset P) (f : Cell K → Bool) (t : P → Cell K) : Nat :=
  (ps.filter fun p => f (t p)).card

lemma cellCount_update [DecidableEq P] {ps : Finset P} {q : P} (hq : q ∈ ps) (f : Cell K → Bool)
    (t : P → Cell K) (c : Cell K) :
    cellCount ps f (Function.update t q c) + (f (t q)).toNat =
      cellCount ps f t + (f c).toNat := by
  have hsplit : ∀ u : P → Cell K,
      cellCount ps f u = cellCount (ps.erase q) f u + (f (u q)).toNat := by
    intro u
    unfold cellCount
    rw [← Finset.insert_erase hq, Finset.filter_insert, Finset.erase_insert_eq_erase]
    cases hu : f (u q) with
    | true => simp [Finset.card_insert_of_notMem]
    | false => simp
  have hrest : cellCount (ps.erase q) f (Function.update t q c) = cellCount (ps.erase q) f t := by
    unfold cellCount
    congr 1
    apply Finset.filter_congr
    intro p hp
    rw [Function.update_of_ne (Finset.ne_of_mem_erase hp)]
  rw [hsplit (Function.update t q c), hsplit t, hrest, Function.update_self]
  omega

lemma cellCount_le (ps : Finset P) (f : Cell K → Bool) (t : P → Cell K) :
    cellCount ps f t ≤ ps.card := Finset.card_filter_le _ _

lemma cellCount_mono {ps qs : Finset P} (h : ps ⊆ qs) (f : Cell K → Bool) (t : P → Cell K) :
    cellCount ps f t ≤ cellCount qs f t :=
  Finset.card_le_card (Finset.filter_subset_filter _ h)

lemma cellCount_range_succ (n : Nat) (f : Cell K → Bool) (t : Nat → Cell K) :
    cellCount (Finset.range (n + 1)) f t = cellCount (Finset.range n) f t + (f (t n)).toNat := by
  unfold cellCount
  rw [Finset.range_add_one, Finset.filter_insert]
  cases hf : f (t n) with
  | true => simp [Finset.card_insert_of_notMem]
  | false => simp

lemma cellCount_range (n : Nat) (f : Cell K → Bool) (t : Nat → Cell K) :
    cellCount (Finset.range n) f t = ((List.range n).filter fun p => f (t p)).length := by
  induction n with
  | zero => rfl
  | succ n ih =>
    rw [cellCount_range_succ, ih, List.range_succ, List.filter_append, List.length_append]
    cases hf : f (t n) <;> simp [hf]

/-- Every cell is live, a tombstone or unused. -/
lemma cellCount_partition (ps : Finset P) (t : P → Cell K) :
    cellCount ps Cell.isLive t + cellCount ps Cell.isTombstone t + cellCount ps Cell.isUnused t =
      ps.card := by
  classical
  induction ps using Finset.induction_on with
  | empty => simp [cellCount]
  | insert p ps hp ih =>
    have hs : ∀ f : Cell K → Bool, cellCount (insert p ps) f t = cellCount ps f t + (f (t p)).toNat := by
      intro f
      unfold cellCount
      rw [Finset.filter_insert]
      cases hf : f (t p) with
      | true => simp [Finset.card_insert_of_notMem, hp]
      | false => simp
    rw [hs, hs, hs, Finset.card_insert_of_notMem hp, ← ih]
    cases t p <;> simp [Cell.isLive, Cell.isTombstone, Cell.isUnused] <;> omega

/-- The table holds exactly the bindings of `m`. -/
def Represents (t : P → Cell K) (val : P → V) [DecidableEq K] (m : Finmap fun _ : K => V) : Prop :=
  ∀ k v, m.lookup k = some v ↔ Binds t val k v

section Represents

variable [DecidableEq K] {m : Finmap fun _ : K => V} {k : K} {v : V}

lemma Represents.mem_iff (h : Represents t val m) : k ∈ m ↔ Stored t k := by
  rw [Finmap.mem_iff, stored_iff_binds val]
  exact exists_congr fun v => h k v

lemma Represents.insert {t' : P → Cell K} {val' : P → V} (h : Represents t val m)
    (hk : ¬Stored t k)
    (hb : ∀ k' w, Binds t' val' k' w ↔ (k' = k ∧ w = v) ∨ Binds t val k' w) :
    Represents t' val' (m.insert k v) := by
  intro k' w
  rw [hb]
  by_cases hkk : k' = k
  · subst hkk
    have hnb : ¬Binds t val k' w := fun hw => hk hw.stored
    simp [Finmap.lookup_insert, hnb, eq_comm]
  · rw [Finmap.lookup_insert_of_ne _ hkk, h k' w]
    simp [hkk]

lemma Represents.erase {t' : P → Cell K} {val' : P → V} (h : Represents t val m)
    (hb : ∀ k' w, Binds t' val' k' w ↔ k' ≠ k ∧ Binds t val k' w) :
    Represents t' val' (m.erase k) := by
  intro k' w
  rw [hb]
  by_cases hkk : k' = k
  · subst hkk
    simp [Finmap.lookup_erase]
  · rw [Finmap.lookup_erase_ne hkk, h k' w]
    simp [hkk]

lemma Represents.congr {val' : P → V} (h : Represents t val m)
    (hval : ∀ p, (∃ k, t p = .live k) → val' p = val p) : Represents t val' m := by
  intro k w
  rw [h k w]
  refine exists_congr fun p => and_congr_right fun hp => ?_
  rw [hval p ⟨k, hp⟩]

/-- Writing to the value of a stored key. -/
lemma Represents.overwrite {path : K → Nat → P} {val' : P → V} {q : P} (h : Represents t val m)
    (hwf : WellFormed path t) (hq : t q = .live k) (hv : val' q = v)
    (hval : ∀ p, p ≠ q → (∃ k, t p = .live k) → val' p = val p) :
    Represents t val' (m.insert k v) := by
  intro k' w
  rcases eq_or_ne k' k with rfl | hne
  · rw [Finmap.lookup_insert, Option.some.injEq]
    constructor
    · rintro rfl
      exact ⟨q, hq, hv⟩
    · rintro ⟨p, hp, rfl⟩
      rw [hwf.unique p q k' hp hq, hv]
  · rw [Finmap.lookup_insert_of_ne _ hne, h k' w]
    refine exists_congr fun p => and_congr_right fun hp => ?_
    rw [hval p _ ⟨k', hp⟩]
    rintro rfl
    rw [hq, Cell.live.injEq] at hp
    exact hne hp.symm

end Represents

end CStructures.Lib
