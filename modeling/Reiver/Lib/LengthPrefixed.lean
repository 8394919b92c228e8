import Reiver.Lib.Bytes
import Std.Data.String.ToNat

/-! Texts that can be told apart from what follows them. -/

namespace Reiver
variable {α : Type} {encode : α → String}

/-- What is encoded can be read off the front of any text. -/
def PrefixFree (encode : α → String) : Prop := ∀ a b x y, encode a ++ x = encode b ++ y → a = b ∧ x = y

def lengthPrefixed (s : String) : String := toString s.utf8ByteSize ++ ":" ++ s

theorem colon_notMem_toString (n : Nat) : ':' ∉ (toString n).toList := by
  intro h
  have hdigits : (toString n).toList = Nat.toDigits 10 n := by
    rw [Nat.toString_eq_repr, Nat.repr, String.toList_ofList]
  rw [hdigits] at h
  exact absurd (Nat.isDigit_of_mem_toDigits (by decide) (by decide) h) (by decide)

theorem split_at_first {a : α} {l l' r r' : List α} (hl : a ∉ l) (hl' : a ∉ l') (h : l ++ a :: r = l' ++ a :: r') :
    l = l' ∧ r = r' := by
  induction l generalizing l' with
  | nil =>
    cases l' with
    | nil => exact ⟨rfl, (List.cons.inj h).2⟩
    | cons b l' => exact absurd (List.cons.inj h).1 (List.ne_of_not_mem_cons hl')
  | cons b l ih =>
    cases l' with
    | nil => exact absurd (List.cons.inj h).1.symm (List.ne_of_not_mem_cons hl)
    | cons c l' =>
      obtain ⟨rfl, hrest⟩ := List.cons.inj h
      obtain ⟨rfl, rfl⟩ := ih (List.not_mem_of_not_mem_cons hl) (List.not_mem_of_not_mem_cons hl') hrest
      exact ⟨rfl, rfl⟩

theorem append_inj_utf8 {s t x y : String} (hsize : s.utf8ByteSize = t.utf8ByteSize) (h : s ++ x = t ++ y) :
    s = t ∧ x = y := by
  have hbytes : utf8Bytes s ++ utf8Bytes x = utf8Bytes t ++ utf8Bytes y := by
    have h := congrArg utf8Bytes h
    simpa only [utf8Bytes, String.toByteArray_append, ByteArray.data_append, Array.toList_append] using h
  obtain ⟨hs, hx⟩ := List.append_inj hbytes (by rw [utf8Bytes_length, utf8Bytes_length, hsize])
  have hinj : ∀ {a b : String}, utf8Bytes a = utf8Bytes b → a = b := fun {a b} hab => by
    have h := congrArg fromUtf8 hab
    rw [fromUtf8_utf8Bytes, fromUtf8_utf8Bytes] at h
    exact Option.some.inj h
  exact ⟨hinj hs, hinj hx⟩

theorem prefixFree_lengthPrefixed : PrefixFree lengthPrefixed := by
  intro s t x y h
  have hchars : ∀ s x : String, (lengthPrefixed s ++ x).toList =
      (toString s.utf8ByteSize).toList ++ ':' :: (s ++ x).toList := by
    intro s x
    simp only [lengthPrefixed, String.toList_append, List.append_assoc]
    rfl
  have hlists := congrArg String.toList h
  rw [hchars, hchars] at hlists
  obtain ⟨hsize, htexts⟩ := split_at_first (colon_notMem_toString _) (colon_notMem_toString _) hlists
  exact append_inj_utf8 (Nat.repr_injective (String.toList_inj.mp hsize)) (String.toList_inj.mp htexts)

theorem intercalate_inj (hfree : PrefixFree encode) {separator : String} {l l' : List α}
    (hlength : l.length = l'.length)
    (h : separator.intercalate (l.map encode) = separator.intercalate (l'.map encode)) : l = l' := by
  induction l generalizing l' with
  | nil => exact (List.eq_nil_of_length_eq_zero hlength.symm).symm
  | cons a l ih =>
    obtain ⟨b, l', rfl⟩ := List.exists_cons_of_length_eq_add_one hlength.symm
    have htail := Nat.succ.inj hlength
    cases l with
    | nil =>
      obtain rfl := List.eq_nil_of_length_eq_zero htail.symm
      have hone : encode a ++ "" = encode b ++ "" := by simpa using h
      rw [(hfree a b "" "" hone).1]
    | cons c l =>
      obtain ⟨d, l', rfl⟩ := List.exists_cons_of_length_eq_add_one htail.symm
      have hne : ∀ (c : α) (l : List α), (c :: l).map encode ≠ [] := fun _ _ => List.cons_ne_nil _ _
      rw [List.map_cons (l := c :: l), List.map_cons (l := d :: l'), String.intercalate_cons_of_ne_nil (hne c l),
        String.intercalate_cons_of_ne_nil (hne d l'), String.append_assoc, String.append_assoc] at h
      obtain ⟨rfl, hrest⟩ := hfree a b _ _ h
      rw [ih htail (append_inj_utf8 rfl hrest).2]

end Reiver

/-! Numbers that are printed with leading zeros. -/

namespace Reiver

def zeroPad (width n : Nat) : String :=
  String.ofList (List.replicate (width - (Nat.toDigits 10 n).length) '0' ++ Nat.toDigits 10 n)

/-- An integer in at least so many characters, its sign included. -/
def zeroPadInt (width : Nat) (i : Int) : String :=
  if i < 0 then "-" ++ zeroPad (width - 1) i.natAbs else zeroPad width i.toNat

variable {width : Nat}

theorem toList_zeroPad (n : Nat) : (zeroPad width n).toList =
    List.replicate (width - (Nat.toDigits 10 n).length) '0' ++ Nat.toDigits 10 n := String.toList_ofList

theorem zeroPad_isDigit {n : Nat} {c : Char} (hc : c ∈ (zeroPad width n).toList) : c.isDigit = true := by
  rw [toList_zeroPad] at hc
  rcases List.mem_append.mp hc with hzero | hdigit
  · rw [(List.mem_replicate.mp hzero).2]
    rfl
  · exact Nat.isDigit_of_mem_toDigits (by decide) (by decide) hdigit

theorem zeroPad_injective : Function.Injective (zeroPad width) := by
  intro n m h
  have hvalue : ∀ n, Nat.ofDigitChars 10 (zeroPad width n).toList 0 = n := fun n => by
    rw [toList_zeroPad, Nat.ofDigitChars_append, Nat.ofDigitChars_replicate_zero, Nat.mul_zero,
      Nat.ofDigitChars_ten_toDigits]
  rw [← hvalue n, h, hvalue m]

theorem zeroPadInt_char {i : Int} {c : Char} (hc : c ∈ (zeroPadInt width i).toList) : c = '-' ∨ c.isDigit = true := by
  rw [zeroPadInt] at hc
  split_ifs at hc
  · rw [String.toList_append] at hc
    rcases List.mem_append.mp hc with hsign | hdigit
    · exact .inl (List.mem_singleton.mp hsign)
    · exact .inr (zeroPad_isDigit hdigit)
  · exact .inr (zeroPad_isDigit hc)

theorem zeroPadInt_injective : Function.Injective (zeroPadInt width) := by
  have hsign : ∀ n s, zeroPad width n ≠ "-" ++ s := by
    intro n s h
    have hmem : '-' ∈ (zeroPad width n).toList := by
      rw [h, String.toList_append]
      exact List.mem_append_left _ List.mem_cons_self
    exact absurd (zeroPad_isDigit hmem) (by decide)
  intro i j h
  rw [zeroPadInt, zeroPadInt] at h
  split_ifs at h with hi hj hj
  · have habs := zeroPad_injective (append_inj_utf8 rfl h).2
    omega
  · exact absurd h.symm (hsign _ _)
  · exact absurd h (hsign _ _)
  · have hnat := zeroPad_injective h
    omega

end Reiver
