import CStructures.Lib.Traversal
import CStructures.Proofs.HashmapIteration
import CStructures.Proofs.HashmapProbing

/-!
# Loops that change the hashmap

The body of a `HASHMAP_FOR_EACH` may erase any entries and write to any values of the map. The
loop still gives each key of the map to its body at most once: those that are there when the
loop starts, in the order of the table, without the ones that have been erased in the meantime.
-/

namespace CStructures
open Lib

/-- An edit passes a value of the size that the map was made for. -/
def LoopEdit.Fits (hm : Hashmap) : LoopEdit → Prop
  | .erase _ => True
  | .write _ value => value.length = hm.valueSize.toNat
  | .assign value => value.length = hm.valueSize.toNat

def LoopEdit.apply (k : List Byte) (m : ByteMap) : LoopEdit → ByteMap
  | .erase key => m.erase key
  | .write key value => if key ∈ m then m.insert key value else m
  | .assign value => if k ∈ m then m.insert k value else m

def LoopBody.visit {α : Type} (body : LoopBody α) (c : α × ByteMap) (k v : List Byte) : α × ByteMap :=
  ((body c.1 k v).1, (body c.1 k v).2.foldl (LoopEdit.apply k) c.2)

namespace Hashmap

variable {hm hm₀ hm' : Hashmap} {pos : UInt32} {key value : List Byte} {m : ByteMap} {fuel : Nat}

lemma cell_setValue (hf : hm.KeysFit) {q : UInt32} (hq : q.toNat < hm.tableCount.toNat) :
    (hm.setValue pos value).cell q = hm.cell q := by
  unfold cell
  rw [slot_setValue hf hq, key_setValue hf hq]

lemma table_setValue (hf : hm.KeysFit) : (hm.setValue pos value).table = hm.table := by
  funext n
  unfold table
  change (if n < hm.tableCount.toNat then _ else _) = _
  split_ifs with hn
  · have hto : (UInt32.ofNat n).toNat = n := toNat_ofNat_of_le hn.le
    exact cell_setValue hf (by rwa [hto])
  · rfl

lemma Valid.setValue (hv : hm.Valid) : (hm.setValue pos value).Valid := by
  refine ⟨hv.tableCount_pos, hv.keysFit, ?_, ?_, ?_⟩
  · intro p k hp hlive
    rw [cell_setValue hv.keysFit hp] at hlive
    rw [slot_setValue hv.keysFit hp]
    exact hv.hashed p k hp hlive
  · rw [table_setValue hv.keysFit]
    exact hv.wellFormed
  · rw [table_setValue hv.keysFit]
    exact hv.used

/-- What one or several edits do to the map. -/
structure Edited (hm hm' : Hashmap) (m' : ByteMap) : Prop where
  valid : hm'.Valid
  tableCount : hm'.tableCount = hm.tableCount
  keySize : hm'.keySize = hm.keySize
  valueSize : hm'.valueSize = hm.valueSize
  thinned : Thinned hm.table hm'.table
  represents : Represents hm'.table hm'.values m'

lemma Edited.refl (hv : hm.Valid) (hrep : Represents hm.table hm.values m) : Edited hm hm m :=
  ⟨hv, rfl, rfl, rfl, .refl _, hrep⟩

lemma Edited.trans {hm'' : Hashmap} {m' m'' : ByteMap} (h : Edited hm hm' m') (h' : Edited hm' hm'' m'') :
    Edited hm hm'' m'' :=
  ⟨h'.valid, h'.tableCount.trans h.tableCount, h'.keySize.trans h.keySize,
    h'.valueSize.trans h.valueSize, h.thinned.trans h'.thinned, h'.represents⟩

lemma values_setValue_of_ne (hf : hm.KeysFit) (hfit : hm.ValuesFit) (hpos : pos.toNat < hm.tableCount.toNat)
    (hlen : value.length = hm.valueSize.toNat) {p : Nat} (hp : p ≠ pos.toNat)
    (hlive : ∃ k, hm.table p = .live k) : (hm.setValue pos value).values p = hm.values p := by
  obtain ⟨k, hlive⟩ := hlive
  obtain ⟨q, rfl, hq, _⟩ := table_eq_live hlive
  rw [values_toNat, values_toNat]
  exact value_setValue_of_ne hf hfit hpos hq hlen fun h => hp (congrArg UInt32.toNat h)

lemma edited_setValue (hv : hm.Valid) (hfit : hm.ValuesFit) (hrep : Represents hm.table hm.values m)
    (hpos : pos.toNat < hm.tableCount.toNat) (hlive : hm.cell pos = .live key)
    (hlen : value.length = hm.valueSize.toNat) :
    Edited hm (hm.setValue pos value) (m.insert key value) := by
  refine ⟨hv.setValue, rfl, rfl, rfl, ?_, ?_⟩
  · rw [table_setValue hv.keysFit]
    exact .refl _
  · rw [table_setValue hv.keysFit]
    refine hrep.overwrite hv.wellFormed ((table_toNat hpos).trans hlive) ?_
      fun p hp hl => values_setValue_of_ne hv.keysFit hfit hpos hlen hp hl
    rw [values_toNat]
    exact value_setValue_self hlen

/-- A write to the value of an entry that has been erased. -/
lemma edited_setValue_tombstone (hv : hm.Valid) (hfit : hm.ValuesFit)
    (hrep : Represents hm.table hm.values m) (hpos : pos.toNat < hm.tableCount.toNat)
    (htomb : hm.cell pos = .tombstone) (hlen : value.length = hm.valueSize.toNat) :
    Edited hm (hm.setValue pos value) m := by
  refine ⟨hv.setValue, rfl, rfl, rfl, ?_, ?_⟩
  · rw [table_setValue hv.keysFit]
    exact .refl _
  · rw [table_setValue hv.keysFit]
    refine hrep.congr fun p hl => values_setValue_of_ne hv.keysFit hfit hpos hlen ?_ hl
    rintro rfl
    obtain ⟨k, hl⟩ := hl
    rw [table_toNat hpos, htomb] at hl
    cases hl

lemma edited_buryEntry (hv : hm.Valid) (hrep : Represents hm.table hm.values m)
    (hpos : pos.toNat < hm.tableCount.toNat) (hlive : hm.cell pos = .live key) :
    Edited hm (hm.buryEntry pos) (m.erase key) := by
  refine ⟨hv.bury hpos hlive, buryEntry_tableCount, buryEntry_keySize, buryEntry_valueSize, ?_,
    hrep.erase (binds_buryEntry hv hpos hlive)⟩
  rw [table_buryEntry hv.keysFit hpos]
  exact .bury ((table_toNat hpos).trans hlive)

/-- In the visit to `key` at `pos`, the entry is there or has been erased. -/
def Visiting (hm : Hashmap) (pos : UInt32) (key : List Byte) : Prop :=
  hm.cell pos = .live key ∨ hm.cell pos = .tombstone ∧ ¬Stored hm.table key

lemma Visiting.edited {m' : ByteMap} (h : hm.Visiting pos key) (hv : hm.Valid)
    (hpos : pos.toNat < hm.tableCount.toNat) (hedit : Edited hm hm' m') : hm'.Visiting pos key := by
  have hpos' : pos.toNat < hm'.tableCount.toNat := by rwa [hedit.tableCount]
  unfold Visiting at h ⊢
  rw [← table_toNat hpos] at h
  rw [← table_toNat hpos']
  rcases h with hlive | ⟨htomb, hgone⟩
  · exact hedit.thinned.live_or_gone hv.wellFormed hlive
  · exact Or.inr ⟨hedit.thinned.tombstone htomb, fun hs => hgone (hedit.thinned.stored hs)⟩

lemma Edited.valuesFit {m' : ByteMap} (h : Edited hm hm' m') (hfit : hm.ValuesFit) : hm'.ValuesFit := by
  unfold ValuesFit
  rw [h.tableCount, h.valueSize]
  exact hfit

theorem loopEdit_spec {e : LoopEdit} (hv : hm.Valid) (hfit : hm.ValuesFit)
    (hrep : Represents hm.table hm.values m) (hpos : pos.toNat < hm.tableCount.toNat)
    (hvisit : hm.Visiting pos key) (he : e.Fits hm)
    (h : loopEdit fuel ⟨hm.keyOffset pos, hm.valueOffset pos⟩ hm e = some hm') :
    Edited hm hm' (e.apply key m) := by
  cases e with
  | erase k =>
    obtain ⟨⟨r, hm₁⟩, herase, rfl⟩ := Option.map_eq_some_iff.mp h
    change Edited hm hm₁ (m.erase k)
    rcases hashmapErase_cases hv herase with ⟨_, rfl, hns⟩ | ⟨p, _, rfl, hp, hlive⟩
    · refine ⟨hv, rfl, rfl, rfl, .refl _, ?_⟩
      obtain ⟨_, _, _, _, _, hrep'⟩ := hashmapErase_spec hv hrep herase
      exact hrep'
    · exact edited_buryEntry hv hrep hp hlive
  | write k v =>
    obtain ⟨r, hfind, rfl⟩ := Option.map_eq_some_iff.mp h
    change Edited hm _ (if k ∈ m then m.insert k v else m)
    unfold hashmapFind at hfind
    split at hfind
    · cases hfind
    · next hl =>
      obtain rfl := Option.some.inj hfind
      rw [if_neg fun hmem => lookup_absent hv hl (hrep.mem_iff.mp hmem)]
      exact .refl hv hrep
    · next p hl =>
      obtain rfl := Option.some.inj hfind
      obtain ⟨hp, hlive⟩ := lookup_found hv hl
      rw [if_pos (hrep.mem_iff.mpr ⟨p.toNat, (table_toNat hp).trans hlive⟩)]
      exact edited_setValue hv hfit hrep hp hlive he
  | assign v =>
    obtain rfl := Option.some.inj h
    change Edited hm (hm.setValue pos v) (if key ∈ m then m.insert key v else m)
    rcases hvisit with hlive | ⟨htomb, hgone⟩
    · rw [if_pos (hrep.mem_iff.mpr ⟨pos.toNat, (table_toNat hpos).trans hlive⟩)]
      exact edited_setValue hv hfit hrep hpos hlive he
    · rw [if_neg fun hmem => hgone (hrep.mem_iff.mp hmem)]
      exact edited_setValue_tombstone hv hfit hrep hpos htomb he

lemma Edited.fits {m' : ByteMap} {e : LoopEdit} (h : Edited hm hm' m') (he : e.Fits hm) : e.Fits hm' := by
  cases e with
  | erase => trivial
  | write | assign =>
    unfold LoopEdit.Fits at he ⊢
    rwa [h.valueSize]

/-- The pointers of the loop stay what they are. -/
lemma Edited.visit {m' : ByteMap} (h : Edited hm hm' m') (pos : UInt32) :
    (⟨hm'.keyOffset pos, hm'.valueOffset pos⟩ : Visit) = ⟨hm.keyOffset pos, hm.valueOffset pos⟩ := by
  unfold keyOffset valueOffset
  rw [h.keySize, h.tableCount, h.valueSize]

theorem loopEdits_spec {edits : List LoopEdit} (hv : hm.Valid) (hfit : hm.ValuesFit)
    (hrep : Represents hm.table hm.values m) (hpos : pos.toNat < hm.tableCount.toNat)
    (hvisit : hm.Visiting pos key) (hedits : ∀ e ∈ edits, e.Fits hm)
    (h : edits.foldlM (loopEdit fuel ⟨hm.keyOffset pos, hm.valueOffset pos⟩) hm = some hm') :
    Edited hm hm' (edits.foldl (LoopEdit.apply key) m) := by
  induction edits generalizing hm m with
  | nil =>
    obtain rfl := Option.some.inj h
    exact .refl hv hrep
  | cons e edits ih =>
    rw [List.foldlM_cons] at h
    obtain ⟨hm₁, hfirst, hrest⟩ := Option.bind_eq_some_iff.mp h
    have hedit := loopEdit_spec hv hfit hrep hpos hvisit (hedits e List.mem_cons_self) hfirst
    rw [← hedit.visit] at hrest
    refine hedit.trans (ih hedit.valid (hedit.valuesFit hfit) hedit.represents ?_
      (hvisit.edited hv hpos hedit) (fun e' he' => hedit.fits (hedits e' (List.mem_cons_of_mem _ he'))) hrest)
    rwa [hedit.tableCount]

variable {α : Type} {body : LoopBody α} {a : α} {c c' : α × Hashmap}

/-- The values that the body stores have the size that the map was made for. -/
def BodyFits (hm : Hashmap) (body : LoopBody α) : Prop := ∀ a k v, ∀ e ∈ (body a k v).2, e.Fits hm

lemma Edited.bodyFits {m' : ByteMap} (h : Edited hm hm' m') (hbody : hm.BodyFits body) : hm'.BodyFits body :=
  fun a k v e he => h.fits (hbody a k v e he)

lemma forEachFrom_skip {remaining : Nat} (h : hm.Skips pos) :
    forEachFrom hm (remaining + 1) pos = forEachFrom hm remaining (pos + 1) :=
  if_pos h

lemma forEachFrom_visit {remaining : Nat} (h : ¬hm.Skips pos) : forEachFrom hm (remaining + 1) pos =
    ⟨hm.keyOffset pos, hm.valueOffset pos⟩ :: forEachFrom hm remaining (pos + 1) :=
  if_neg h

/-- The keys from `pos` on, as the loop meets them when nothing is changed. -/
def keysFrom (hm : Hashmap) (remaining : Nat) (pos : UInt32) : List (List Byte) :=
  (forEachFrom hm remaining pos).map hm.visitedKey

lemma keysFrom_skip {remaining : Nat} (h : hm.Skips pos) :
    hm.keysFrom (remaining + 1) pos = hm.keysFrom remaining (pos + 1) := by
  rw [keysFrom, forEachFrom_skip h, keysFrom]

lemma keysFrom_visit {remaining : Nat} (h : ¬hm.Skips pos) :
    hm.keysFrom (remaining + 1) pos = hm.key pos :: hm.keysFrom remaining (pos + 1) := by
  rw [keysFrom, forEachFrom_visit h, List.map_cons]
  rfl

lemma changing_end {passes : Nat} (h : pos = hm.tableCount) :
    forEachChangingFrom fuel body (passes + 1) pos (a, hm) = some (a, hm) :=
  if_pos h

lemma changing_skip {passes : Nat} (h : pos ≠ hm.tableCount) (hskip : hm.Skips pos) :
    forEachChangingFrom fuel body (passes + 1) pos (a, hm) =
      forEachChangingFrom fuel body passes (pos + 1) (a, hm) :=
  (if_neg h).trans (if_pos hskip)

lemma changing_visit {passes : Nat} (h : pos ≠ hm.tableCount) (hskip : ¬hm.Skips pos) :
    forEachChangingFrom fuel body (passes + 1) pos (a, hm) =
      ((body a (hm.key pos) (hm.value pos)).2.foldlM
        (loopEdit fuel ⟨hm.keyOffset pos, hm.valueOffset pos⟩) hm).bind fun hm' =>
          forEachChangingFrom fuel body passes (pos + 1) ((body a (hm.key pos) (hm.value pos)).1, hm') :=
  (if_neg h).trans (if_neg hskip)

/-- The loop from `pos` on, where `hm₀` is the map as it was when the loop started. -/
theorem changing_spec {passes remaining : Nat} {a' : α} (hv₀ : hm₀.Valid) (hedited : Edited hm₀ hm m)
    (hfit : hm.ValuesFit) (hbody : hm.BodyFits body)
    (hpos : pos.toNat + remaining = hm.tableCount.toNat)
    (h : forEachChangingFrom fuel body passes pos (a, hm) = some (a', hm')) :
    ∃ m', visitEach (fun c k => c.2.lookup k) body.visit (hm₀.keysFrom remaining pos) (a, m) = (a', m') ∧
      Edited hm₀ hm' m' := by
  induction passes generalizing pos a hm m remaining with
  | zero => cases h
  | succ passes ih =>
    cases remaining with
    | zero =>
      rw [changing_end (UInt32.toNat_inj.mp hpos)] at h
      cases h
      exact ⟨m, rfl, hedited⟩
    | succ remaining =>
      have hlt : pos.toNat < hm.tableCount.toNat := by omega
      have hlt₀ : pos.toNat < hm₀.tableCount.toNat := by rwa [← hedited.tableCount]
      have hne : pos ≠ hm.tableCount := fun heq => hlt.ne (congrArg UInt32.toNat heq)
      have hsucc : (pos + 1).toNat + remaining = hm.tableCount.toNat := by
        rw [toNat_succ (b := hm.tableCount) hlt]
        omega
      have hskips := hedited.valid.skips_iff hlt
      have hskips₀ := hv₀.skips_iff hlt₀
      by_cases hskip₀ : hm₀.Skips pos
      · -- No entry was there, and none has been stored.
        have hskip : hm.Skips pos := by
          rw [hskips]
          rw [hskips₀] at hskip₀
          exact fun hlive => hskip₀ (by
            obtain ⟨k, hk⟩ := Cell.isLive_iff.mp hlive
            exact Cell.isLive_iff.mpr ⟨k, hedited.thinned.live hk⟩)
        rw [changing_skip hne hskip] at h
        rw [keysFrom_skip hskip₀]
        exact ih hedited hfit hbody hsucc h
      rw [keysFrom_visit hskip₀]
      have hlive₀ : hm₀.table pos.toNat = .live (hm₀.key pos) := by
        rw [hskips₀, not_not] at hskip₀
        obtain ⟨k, hk⟩ := Cell.isLive_iff.mp hskip₀
        rw [hk, Cell.live.injEq]
        rw [table_toNat hlt₀] at hk
        exact (cell_eq_live.mp hk).2.2.symm
      rcases hedited.thinned.live_or_gone hv₀.wellFormed hlive₀ with hlive | ⟨htomb, hgone⟩
      · have hcell := (table_toNat hlt).symm.trans hlive
        have hkey : hm.key pos = hm₀.key pos := (cell_eq_live.mp hcell).2.2
        have hskip : ¬hm.Skips pos := by
          rw [hskips, hlive]
          exact fun hnot => hnot rfl
        rw [changing_visit hne hskip, hkey] at h
        obtain ⟨hm₁, hedits, hrest⟩ := Option.bind_eq_some_iff.mp h
        have hedit := loopEdits_spec hedited.valid hfit hedited.represents hlt (Or.inl hcell)
          (hbody a _ _) hedits
        have hget : m.lookup (hm₀.key pos) = some (hm.value pos) :=
          lookup_eq_some hedited.represents hlt hcell
        rw [visitEach_bound (s := (a, m)) hget]
        refine ih (hedited.trans hedit) (hedit.valuesFit hfit) (hedit.bodyFits hbody) ?_ hrest
        rwa [hedit.tableCount]
      · -- The entry has been erased by an earlier visit.
        have hskip : hm.Skips pos := by
          rw [hskips, htomb]
          exact Bool.false_ne_true
        have hget : m.lookup (hm₀.key pos) = none := lookup_eq_none hedited.represents hgone
        rw [changing_skip hne hskip] at h
        rw [visitEach_absent (s := (a, m)) hget]
        exact ih hedited hfit hbody hsucc h

/-- The whole loop: it starts with the keys of the map in the order of the table. -/
theorem forEachChanging_spec {a' : α} (hv : hm.Valid) (hfit : hm.ValuesFit)
    (hrep : Represents hm.table hm.values m) (hbody : hm.BodyFits body)
    (h : hashmapForEachChanging fuel body (a, hm) = some (a', hm')) :
    ∃ keys m', keys.Nodup ∧ (∀ k, k ∈ keys ↔ k ∈ m) ∧
      visitEach (fun c k => c.2.lookup k) body.visit keys (a, m) = (a', m') ∧ Edited hm hm' m' := by
  have hover : hm.IteratesOver m.keys := hv.iteratesOver fun k => Finmap.mem_keys.trans hrep.mem_iff
  obtain ⟨m', hvisits, hedited⟩ := changing_spec hv (.refl hv hrep) hfit hbody (Nat.zero_add _) h
  exact ⟨_, m', hover.once, fun k => (hover.keys k).trans Finmap.mem_keys, hvisits, hedited⟩

def BodyReturns (body : LoopBody α) : Prop :=
  ∀ (hm : Hashmap) (a : α) (pos : UInt32) (key v : List Byte), hm.Valid →
    pos.toNat < hm.tableCount.toNat → hm.cell pos = .live key →
    ∃ n hm', ∀ fuel, n < fuel → (body a key v).2.foldlM
      (loopEdit fuel ⟨hm.keyOffset pos, hm.valueOffset pos⟩) hm = some hm'

theorem changing_returns {remaining : Nat} (hreturns : BodyReturns body) (hv : hm.Valid)
    (hfit : hm.ValuesFit) (hrep : Represents hm.table hm.values m) (hbody : hm.BodyFits body)
    (hpos : pos.toNat + remaining = hm.tableCount.toNat) :
    ∃ n r, ∀ fuel, n < fuel → ∀ passes, remaining < passes →
      forEachChangingFrom fuel body passes pos (a, hm) = some r := by
  induction remaining generalizing pos a hm m with
  | zero =>
    refine ⟨0, (a, hm), fun fuel _ passes hpasses => ?_⟩
    obtain ⟨passes, rfl⟩ := Nat.exists_eq_succ_of_ne_zero hpasses.ne'
    exact changing_end (UInt32.toNat_inj.mp hpos)
  | succ remaining ih =>
    have hlt : pos.toNat < hm.tableCount.toNat := by omega
    have hne : pos ≠ hm.tableCount := fun heq => hlt.ne (congrArg UInt32.toNat heq)
    have hsucc : (pos + 1).toNat + remaining = hm.tableCount.toNat := by
      rw [toNat_succ (b := hm.tableCount) hlt]
      omega
    by_cases hskip : hm.Skips pos
    · obtain ⟨n, r, hrest⟩ := ih (a := a) hv hfit hrep hbody hsucc
      refine ⟨n, r, fun fuel hfuel passes hpasses => ?_⟩
      obtain ⟨passes, rfl⟩ := Nat.exists_eq_succ_of_ne_zero (Nat.zero_lt_of_lt hpasses).ne'
      rw [changing_skip hne hskip]
      exact hrest fuel hfuel passes (by omega)
    · have hcell : hm.cell pos = .live (hm.key pos) := by
        unfold Skips at hskip
        push Not at hskip
        exact cell_eq_live.mpr ⟨hskip.1, hskip.2.1, rfl⟩
      obtain ⟨n, hm₁, hedits⟩ := hreturns hm a pos _ (hm.value pos) hv hlt hcell
      have hedit := loopEdits_spec hv hfit hrep hlt (Or.inl hcell) (hbody a _ _) (hedits (n + 1) (by omega))
      rw [← hedit.tableCount] at hsucc
      obtain ⟨n', r, hrest⟩ := ih (a := (body a (hm.key pos) (hm.value pos)).1) hedit.valid
        (hedit.valuesFit hfit) hedit.represents (hedit.bodyFits hbody) hsucc
      refine ⟨max n n', r, fun fuel hfuel passes hpasses => ?_⟩
      obtain ⟨passes, rfl⟩ := Nat.exists_eq_succ_of_ne_zero (Nat.zero_lt_of_lt hpasses).ne'
      rw [changing_visit hne hskip, hedits fuel (by omega), Option.bind_some]
      exact hrest fuel (by omega) passes (by omega)

lemma forEachChanging_returns (hreturns : BodyReturns body) (hv : hm.Valid) (hfit : hm.ValuesFit)
    (hrep : Represents hm.table hm.values m) (hbody : hm.BodyFits body) :
    ∃ n r, ∀ fuel, n < fuel → hashmapForEachChanging fuel body (a, hm) = some r := by
  have hzero : (0 : UInt32).toNat + hm.tableCount.toNat = hm.tableCount.toNat := Nat.zero_add _
  obtain ⟨n, r, hloop⟩ := changing_returns (a := a) hreturns hv hfit hrep hbody hzero
  refine ⟨max n hm.tableCount.toNat, r, fun fuel hfuel => ?_⟩
  exact hloop fuel ((le_max_left _ _).trans_lt hfuel) fuel ((le_max_right _ _).trans_lt hfuel)

inductive LoopCall (α : Type)
  | call (call : HashmapCall)
  | forEach (body : LoopBody α) (a : α)

inductive LoopAnswer (α : Type)
  | answer (answer : HashmapAnswer)
  | result (a : α)

variable {σ : Type}

inductive LoopStep (A : Allocator σ) :
    Hashmap × σ → LoopCall α × LoopAnswer α → Hashmap × σ → Prop
  | call {c c' call answer} (h : ValuedStep A c (call, answer) c') :
      LoopStep A c (.call call, .answer answer) c'
  | forEach {hm hm' s fuel body a a'} (hfit : hm.ValuesFit) (hbody : hm.BodyFits body)
      (h : hashmapForEachChanging fuel body (a, hm) = some (a', hm')) :
      LoopStep A (hm, s) (.forEach body a, .result a') (hm', s)

/-- The finite map: a loop goes over a list of its keys. -/
inductive LoopMapStep : ByteMap → LoopCall α × LoopAnswer α → ByteMap → Prop
  | call {m m' call answer} (h : MapStep m (call, answer) m') :
      LoopMapStep m (.call call, .answer answer) m'
  | forEach {m m' : ByteMap} {keys body a a'} (hnodup : keys.Nodup) (hkeys : ∀ k, k ∈ keys ↔ k ∈ m)
      (h : visitEach (fun c k => c.2.lookup k) body.visit keys (a, m) = (a', m')) :
      LoopMapStep m (.forEach body a, .result a') m'

def callLabel (α : Type) (l : HashmapCall × HashmapAnswer) : LoopCall α × LoopAnswer α :=
  (.call l.1, .answer l.2)

lemma loopStep_simulates {A : Allocator σ} (hA : A.NeverFails) {c c' : Hashmap × σ}
    {l : LoopCall α × LoopAnswer α} (hc : c.1.Valid ∧ Represents c.1.table c.1.values m)
    (h : LoopStep A c l c') :
    ∃ m', LoopMapStep m l m' ∧ c'.1.Valid ∧ Represents c'.1.table c'.1.values m' := by
  cases h with
  | call h =>
    obtain ⟨m', hstep, hc'⟩ := valuedStep_simulates hA hc h
    exact ⟨m', .call hstep, hc'⟩
  | forEach hfit hbody h =>
    obtain ⟨keys, m', hnodup, hkeys, hvisits, hedited⟩ := forEachChanging_spec hc.1 hfit hc.2 hbody h
    exact ⟨m', .forEach hnodup hkeys hvisits, hedited.valid, hedited.represents⟩

/-- A body that replaces the value of its key or erases the key, and records what it has seen. -/
def retain (change : List Byte → List Byte → Option (List Byte)) : LoopBody (List (List Byte × List Byte)) :=
  fun seen k v => (seen ++ [(k, v)],
    match change k v with
    | none => [.erase k]
    | some w => [.assign w])

variable {change : List Byte → List Byte → Option (List Byte)}

lemma retain_fits (h : ∀ k v, ∀ w ∈ change k v, w.length = hm.valueSize.toNat) :
    hm.BodyFits (retain change) := by
  intro seen k v e he
  unfold retain at he
  cases hchange : change k v with
  | none =>
    rw [hchange] at he
    obtain rfl := List.mem_singleton.mp he
    trivial
  | some w =>
    rw [hchange] at he
    obtain rfl := List.mem_singleton.mp he
    exact h k v w hchange

lemma retain_returns : BodyReturns (retain change) := by
  intro hm seen pos key v hv hpos hlive
  unfold retain
  cases change key v with
  | none =>
    obtain ⟨n, hlookup⟩ := hv.lookup_stored hpos hlive
    refine ⟨n, hm.buryEntry pos, fun fuel hfuel => ?_⟩
    have herase : hashmapErase fuel hm key = some (some (hm.valueOffset pos), hm.buryEntry pos) := by
      rw [hashmapErase, hlookup fuel hfuel]
      rfl
    simp only [List.foldlM_cons, List.foldlM_nil, loopEdit, herase]
    rfl
  | some w => exact ⟨0, hm.storeAt (hm.valueOffset pos) w, fun _ _ => rfl⟩

lemma retain_changesOwn (change : List Byte → List Byte → Option (List Byte)) :
    ChangesOwn (fun (c : List (List Byte × List Byte) × ByteMap) k => c.2.lookup k)
      (retain change).visit change := by
  rintro ⟨seen, m⟩ k v hget
  have hmem : k ∈ m := Finmap.mem_of_lookup_eq_some hget
  unfold LoopBody.visit retain
  cases change k v with
  | none => exact ⟨Finmap.lookup_erase k m, fun k' hne => Finmap.lookup_erase_ne hne⟩
  | some w =>
    change (if k ∈ m then m.insert k w else m).lookup k = _ ∧
      ∀ k', k' ≠ k → (if k ∈ m then m.insert k w else m).lookup k' = m.lookup k'
    rw [if_pos hmem]
    exact ⟨Finmap.lookup_insert m, fun k' hne => Finmap.lookup_insert_of_ne m hne⟩

/-- What a loop that filters the map `m` has seen and left behind. -/
structure Retained (change : List Byte → List Byte → Option (List Byte)) (m : ByteMap)
    (seen : List (List Byte × List Byte)) (hm' : Hashmap) : Prop where
  once : (seen.map Prod.fst).Nodup
  seen : ∀ k v, (k, v) ∈ seen ↔ m.lookup k = some v
  kept : ∃ m', Represents hm'.table hm'.values m' ∧ (∀ k, m'.lookup k = (m.lookup k).bind (change k)) ∧
    (hashmapCount hm').toNat = m'.keys.card

theorem retain_spec {seen : List (List Byte × List Byte)} (hv : hm.Valid) (hfit : hm.ValuesFit)
    (hrep : Represents hm.table hm.values m)
    (hsize : ∀ k v, ∀ w ∈ change k v, w.length = hm.valueSize.toNat)
    (h : hashmapForEachChanging fuel (retain change) ([], hm) = some (seen, hm')) :
    Retained change m seen hm' := by
  obtain ⟨keys, m', hnodup, hkeys, hvisits, hedited⟩ :=
    forEachChanging_spec hv hfit hrep (retain_fits hsize) h
  have hlog := visitEach_log Prod.fst Prod.mk (s := (([] : List _), m)) (fun _ _ _ => rfl)
    (retain_changesOwn change) hnodup
  rw [hvisits, List.nil_append] at hlog
  change seen = _ at hlog
  refine ⟨?_, fun k v => ?_, m', hedited.represents, fun k => ?_, hedited.valid.card_keys hedited.represents⟩
  · have hfirst : ∀ k ∈ keys, ((m.lookup k).map (Prod.mk k)).map Prod.fst = some k := by
      intro k hk
      obtain ⟨v, hv⟩ := Finmap.mem_iff.mp ((hkeys k).mp hk)
      rw [hv]
      rfl
    rw [hlog, List.map_filterMap, List.filterMap_congr hfirst, List.filterMap_some]
    exact hnodup
  · rw [hlog, List.mem_filterMap]
    constructor
    · rintro ⟨k', _, hk'⟩
      obtain ⟨v', hv', heq⟩ := Option.map_eq_some_iff.mp hk'
      cases heq
      exact hv'
    · intro hv'
      refine ⟨k, (hkeys k).mpr (Finmap.mem_of_lookup_eq_some hv'), ?_⟩
      change (m.lookup k).map (Prod.mk k) = some (k, v)
      rw [hv', Option.map_some]
  · by_cases hk : k ∈ keys
    · have hget := visitEach_of_mem (s := (([] : List _), m)) (retain_changesOwn change) hnodup hk
      rwa [hvisits] at hget
    · have hget := visitEach_of_notMem (s := (([] : List _), m)) (retain_changesOwn change) hk
      rw [hvisits] at hget
      have hnone : m.lookup k = none := Finmap.lookup_eq_none.mpr fun hin => hk ((hkeys k).mpr hin)
      rw [hnone, Option.bind_none, ← hnone]
      exact hget

end Hashmap

/-- Over every run of calls and loops, a loop gives each key of the finite map to its body once,
except those that have been erased before their turn, and edits the finite map with it. -/
theorem hashmap_loops_refine_map {σ α : Type} {A : Allocator σ} (hA : A.NeverFails)
    {keySize valueSize tableCount : UInt32} {hash : Hash32Func} {s s₀ s' : σ} {hm₀ hm : Hashmap}
    {ls : List (Hashmap.LoopCall α × Hashmap.LoopAnswer α)} (hpos : 0 < tableCount)
    (hcount : tableCount.toNat * 3 < 2 ^ 32)
    (hinit : hashmapInitWithOptions A keySize valueSize tableCount hash s = some (some hm₀, s₀))
    (hrun : Run (Hashmap.LoopStep A) (hm₀, s₀) ls (hm, s')) :
    ∃ m, Run Hashmap.LoopMapStep ∅ ls m ∧ Represents hm.table hm.values m ∧
      (hashmapCount hm).toNat = m.keys.card := by
  obtain ⟨m, hmrun, hv', hrep⟩ := Hashmap.run_simulates hpos hcount hinit hrun
    fun _ _ _ _ hc hstep => Hashmap.loopStep_simulates hA hc hstep
  exact ⟨m, hmrun, hrep, hv'.card_keys hrep⟩

def loopedCalls : List HashmapCall := collidingCalls.take 5

/-- What a loop leaves after `loopedCalls`. -/
def looped {α V : Type} (loop : Hashmap → Option (α × Hashmap)) (view : α × Hashmap → V) :
    Option (UInt32 × UInt32 × V) := do
  let r ← hashmapInitWithOptions zeroAllocator 1 1 4 (fun _ => 0) ()
  let hm ← r.1
  let r ← runCalls valuedCall (hm, ()) loopedCalls
  let c ← loop r.2.1
  return (r.2.1.valueSize, r.2.1.tableCount, view c)

lemma exists_looped {α V : Type} {loop : Hashmap → Option (α × Hashmap)} {view : α × Hashmap → V} {x : V}
    (h : looped loop view = some (1, 4, x)) : ∃ hm₀, ∃ ls : List (HashmapCall × HashmapAnswer), ∃ hm c,
      hashmapInitWithOptions zeroAllocator 1 1 4 (fun _ => 0) () = some (some hm₀, ()) ∧
      Run (Hashmap.ValuedStep zeroAllocator) (hm₀, ()) ls (hm, ()) ∧ hm.valueSize = 1 ∧ hm.ValuesFit ∧
      loop hm = some c ∧ view c = x := by
  simp only [looped, Option.bind_eq_bind, Option.bind_eq_some_iff, Option.pure_def, Option.some.injEq,
    Prod.mk.injEq] at h
  obtain ⟨⟨_, _⟩, hinit, hm₀, rfl, ⟨ls, hm, _⟩, hcalls, c, hloop, hsize, hcount, hview⟩ := h
  refine ⟨hm₀, ls, hm, c, hinit, Run.of_runCalls (fun _ _ _ _ h => valuedCall_step h) hcalls, hsize, ?_,
    hloop, hview⟩
  unfold Hashmap.ValuesFit
  rw [hsize, hcount]
  decide

/-- A body that erases `[3]` and writes to the value of `[2]` in each visit. -/
def crossingBody : LoopBody (List (List Byte)) :=
  fun seen k _ => (seen ++ [k], [.erase [3], .write [2] [5]])

theorem hashmap_loops_refine_map_crossing :
    ∃ ls : List (Hashmap.LoopCall (List (List Byte)) × Hashmap.LoopAnswer (List (List Byte))),
    ∃ hm, ∃ answers : List HashmapAnswer,
    ls.map Prod.snd = answers.map Hashmap.LoopAnswer.answer ++ [.result [[4], [2]]] ∧
    ∃ m, Run Hashmap.LoopMapStep ∅ ls m ∧ Represents hm.table hm.values m ∧
      (hashmapCount hm).toNat = m.keys.card := by
  obtain ⟨hm₀, ls, hm₁, ⟨seen, hm⟩, hinit, hrun, hsize, hfit, hloop, rfl⟩ := exists_looped
    (show looped (fun hm => hashmapForEachChanging 9 crossingBody ([], hm)) Prod.fst = some (1, 4, [[4], [2]]) by
      decide +kernel)
  have hbody : hm₁.BodyFits crossingBody := by
    intro seen k v e he
    rcases List.mem_pair.mp he with rfl | rfl
    · trivial
    · exact (congrArg UInt32.toNat hsize).symm
  have hcalls : Run (Hashmap.LoopStep zeroAllocator) (hm₀, ())
      (ls.map (Hashmap.callLabel (List (List Byte)))) (hm₁, ()) :=
    hrun.map _ fun _ _ _ h => .call h
  refine ⟨_, hm, ls.map Prod.snd, ?_, hashmap_loops_refine_map zeroAllocator_grants.neverFails (by decide)
    (by decide) hinit (hcalls.snoc (.forEach hfit hbody hloop))⟩
  simp [Hashmap.callLabel, Function.comp_def]

/-- After every run, a loop whose body erases its key or writes to its value returns, has seen each
binding of the finite map once, and leaves the map filtered by its body. -/
theorem hashmap_loop_retains {σ : Type} {A : Allocator σ} (hA : A.NeverFails)
    {keySize valueSize tableCount : UInt32} {hash : Hash32Func} {s s₀ s' : σ} {hm₀ hm : Hashmap}
    {ls : List (HashmapCall × HashmapAnswer)} {change : List Byte → List Byte → Option (List Byte)}
    (hpos : 0 < tableCount) (hcount : tableCount.toNat * 3 < 2 ^ 32)
    (hinit : hashmapInitWithOptions A keySize valueSize tableCount hash s = some (some hm₀, s₀))
    (hrun : Run (Hashmap.ValuedStep A) (hm₀, s₀) ls (hm, s')) (hfit : hm.ValuesFit)
    (hsize : ∀ k v, ∀ w ∈ change k v, w.length = hm.valueSize.toNat) :
    ∃ m, Run MapStep ∅ ls m ∧ ∃ n seen hm', Hashmap.Retained change m seen hm' ∧ ∀ fuel, n < fuel →
      hashmapForEachChanging fuel (Hashmap.retain change) ([], hm) = some (seen, hm') := by
  obtain ⟨m, hmrun, hv', hrep⟩ := Hashmap.run_simulates hpos hcount hinit hrun
    fun _ _ _ _ hc hstep => Hashmap.valuedStep_simulates hA hc hstep
  obtain ⟨n, ⟨seen, hm'⟩, hloop⟩ := Hashmap.forEachChanging_returns (a := []) Hashmap.retain_returns hv'
    hfit hrep (Hashmap.retain_fits hsize)
  exact ⟨m, hmrun, n, seen, hm', Hashmap.retain_spec hv' hfit hrep hsize (hloop _ (Nat.lt_succ_self n)),
    hloop⟩

/-- Doubles small values, and erases the entries of the others. -/
def doubleSmall (_ v : List Byte) : Option (List Byte) :=
  if v.getD 0 0 ≤ 8 then some [v.getD 0 0 * 2] else none

theorem hashmap_loop_retains_small : ∃ ls : List (HashmapCall × HashmapAnswer), ∃ hm : Hashmap,
    hashmapCount hm = 3 ∧
    ∃ m, Run MapStep ∅ ls m ∧ ∃ n seen hm', Hashmap.Retained doubleSmall m seen hm' ∧ ∀ fuel, n < fuel →
      hashmapForEachChanging fuel (Hashmap.retain doubleSmall) ([], hm) = some (seen, hm') := by
  obtain ⟨hm₀, ls, hm, c, hinit, hrun, hsize, hfit, hsame, hcount⟩ := exists_looped
    (show looped (fun hm => some ((), hm)) (fun c => hashmapCount c.2) = some (1, 4, 3) by decide +kernel)
  obtain rfl := Option.some.inj hsame
  refine ⟨ls, hm, hcount, hashmap_loop_retains zeroAllocator_grants.neverFails (by decide) (by decide)
    hinit hrun hfit fun k v w hw => ?_⟩
  unfold doubleSmall at hw
  split at hw
  · obtain rfl := Option.some.inj hw
    exact (congrArg UInt32.toNat hsize).symm
  · cases hw

end CStructures
