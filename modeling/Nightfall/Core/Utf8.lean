import Mathlib.Data.String.Basic

/-!
# The bytes of a text

A text as `encode("utf-8")` gives it. The first byte of a longer sequence is the greater
one and the bytes of one length carry the digits of the character, so the bytes of two
texts compare as the texts do.

* `utf8EncodeChar_lt`: one character.
* `utf8_lt`, `utf8_injective`: texts.
-/
namespace Nightfall.Core

/-- The bytes of a text in UTF-8. -/
def utf8 (s : String) : List UInt8 := s.toList.flatMap String.utf8EncodeChar

theorem toNat_range (c : Char) : c.val.toNat < 1114112 := by
  rcases c.valid with h | h
  · exact Nat.lt_trans h (by decide)
  · exact h.2

/-- Four bytes compare as their numbers do. -/
theorem four_bytes_lt {v w : Nat} (hlt : v < w) (hw : w < 1114112) :
    v / 262144 % 8 + 240 < w / 262144 % 8 + 240 ∨
      v / 262144 % 8 + 240 = w / 262144 % 8 + 240 ∧
        (v / 4096 % 64 + 128 < w / 4096 % 64 + 128 ∨
          v / 4096 % 64 + 128 = w / 4096 % 64 + 128 ∧
            (v / 64 % 64 + 128 < w / 64 % 64 + 128 ∨
              v / 64 % 64 + 128 = w / 64 % 64 + 128 ∧ v % 64 + 128 < w % 64 + 128)) := by
  rcases Nat.lt_or_eq_of_le (Nat.div_le_div_right (c := 262144) hlt.le) with h | h
  · omega
  refine .inr ⟨by omega, ?_⟩
  rcases Nat.lt_or_eq_of_le (Nat.div_le_div_right (c := 4096) hlt.le) with h' | h'
  · omega
  refine .inr ⟨by omega, ?_⟩
  omega

/-- The first byte that differs is smaller for the smaller character. -/
theorem utf8EncodeChar_lt {c d : Char} (h : c < d) (x y : List UInt8) :
    String.utf8EncodeChar c ++ x < String.utf8EncodeChar d ++ y := by
  have hlt : c.val.toNat < d.val.toNat := h
  have hd := toNat_range d
  unfold String.utf8EncodeChar
  generalize c.val.toNat = v at hlt
  generalize d.val.toNat = w at hlt hd
  dsimp only
  by_cases hlong : v ≤ 0xffff
  -- one goal for each pair of lengths; the longer sequence starts with the greater byte
  · split_ifs <;>
      simp only [List.cons_append, List.nil_append, List.cons_lt_cons_iff,
        UInt8.lt_iff_toNat_lt, ← UInt8.toNat_inj, UInt8.toNat_ofNat'] <;> omega
  · have hv : ¬ v ≤ 0x7f ∧ ¬ v ≤ 0x7ff := by omega
    have hw : ¬ w ≤ 0x7f ∧ ¬ w ≤ 0x7ff ∧ ¬ w ≤ 0xffff := by omega
    simp only [hlong, hv, hw, if_false, List.cons_append, List.nil_append,
      List.cons_lt_cons_iff, UInt8.lt_iff_toNat_lt, ← UInt8.toNat_inj, UInt8.toNat_ofNat']
    simp (disch := omega) only [Nat.mod_eq_of_lt (b := 256)]
    rcases four_bytes_lt hlt hd with h | ⟨h, h' | ⟨h', h'' | ⟨h'', h'''⟩⟩⟩
    · exact .inl h
    · exact .inr ⟨h, .inl h'⟩
    · exact .inr ⟨h, .inr ⟨h', .inl h''⟩⟩
    · exact .inr ⟨h, .inr ⟨h', .inr ⟨h'', .inl h'''⟩⟩⟩

/-- Only the NUL character has a zero byte. -/
theorem eq_nul_of_zero_mem {c : Char} (h : 0 ∈ String.utf8EncodeChar c) : c.val.toNat = 0 := by
  unfold String.utf8EncodeChar at h
  have hc := toNat_range c
  generalize c.val.toNat = v at h hc
  dsimp only at h
  split_ifs at h <;>
    simp only [List.mem_cons, List.not_mem_nil, or_false, ← UInt8.toNat_inj, UInt8.toNat_ofNat',
      UInt8.reduceToNat] at h <;> omega

theorem zero_mem_utf8 {s : String} (h : 0 ∈ utf8 s) : '\x00' ∈ s.toList := by
  obtain ⟨c, hc, hzero⟩ := List.mem_flatMap.mp h
  have hnul : c = '\x00' := Char.ext (UInt32.toNat_inj.mp (eq_nul_of_zero_mem hzero))
  exact hnul ▸ hc

theorem utf8_ne_nil {s : String} (h : s ≠ "") : utf8 s ≠ [] := by
  intro hnil
  refine h (String.toList_inj.mp (List.eq_nil_iff_forall_not_mem.mpr fun c hc => ?_))
  exact String.utf8EncodeChar_ne_nil (List.flatMap_eq_nil_iff.mp hnil c hc)

/-- Texts compare as their bytes do. -/
theorem utf8_lt {s t : String} (h : s < t) : utf8 s < utf8 t := by
  have hlist : s.toList < t.toList := h
  unfold utf8
  generalize s.toList = cs at hlist
  generalize t.toList = ds at hlist
  induction cs generalizing ds with
  | nil =>
    cases ds with
    | nil => exact absurd hlist (lt_irrefl _)
    | cons d ds =>
      rw [List.flatMap_nil, List.flatMap_cons]
      obtain ⟨b, bs, hb⟩ := List.exists_cons_of_ne_nil (String.utf8EncodeChar_ne_nil (c := d))
      rw [hb]
      exact List.nil_lt_cons b _
  | cons c cs ih =>
    cases ds with
    | nil => exact absurd hlist (List.not_lt_nil _)
    | cons d ds =>
      rw [List.flatMap_cons, List.flatMap_cons]
      rcases List.cons_lt_cons_iff.mp hlist with hcd | ⟨rfl, hrest⟩
      · exact utf8EncodeChar_lt hcd _ _
      · exact List.append_left_lt (ih ds hrest)

theorem utf8_irrefl (s : String) : ¬ utf8 s < utf8 s := List.lt_irrefl _

theorem utf8_injective : Function.Injective utf8 := by
  intro s t h
  rcases lt_trichotomy s t with hst | hst | hts
  · exact absurd (utf8_lt hst) (h ▸ utf8_irrefl s)
  · exact hst
  · exact absurd (utf8_lt hts) (h ▸ utf8_irrefl t)

end Nightfall.Core
