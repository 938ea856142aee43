/-
Printed scalars are read back. A text is printed character by character, so reading it is followed
character by character: each is spelled as it is or by an escape, and the reader gives its bytes.
The digits of an integer are read back as the number as long as no digit of another follows.
-/
import AccessRecords.Json.Printer
import AccessRecords.Proofs.Json.Reading
import AccessRecords.Proofs.Json.Yield
import AccessRecords.Proofs.Text.Numeral
import AccessRecords.Proofs.Text.Order

namespace AccessRecords

namespace Text.Utf8

/-- The bytes of characters. -/
def encodeChars (cs : List Char) : List UInt8 := cs.flatMap String.utf8EncodeChar

@[simp] theorem encodeChars_nil : encodeChars [] = [] := rfl

@[simp] theorem encodeChars_cons (c : Char) (cs : List Char) :
    encodeChars (c :: cs) = String.utf8EncodeChar c ++ encodeChars cs := List.flatMap_cons

@[simp] theorem encodeChars_append (cs ds : List Char) :
    encodeChars (cs ++ ds) = encodeChars cs ++ encodeChars ds := List.flatMap_append

/-- Every character has a byte at least. -/
theorem length_le_encodeChars (cs : List Char) : cs.length ≤ (encodeChars cs).length := by
  induction cs with
  | nil => exact le_rfl
  | cons c cs ih =>
    have hc : 0 < (String.utf8EncodeChar c).length := List.length_pos_iff.2 String.utf8EncodeChar_ne_nil
    rw [encodeChars_cons, List.length_append, List.length_cons]
    omega

theorem encodeChar_of_ascii {c : Char} (h : c.toNat < 0x80) : String.utf8EncodeChar c = [UInt8.ofNat c.toNat] := by
  unfold String.utf8EncodeChar
  exact if_pos (show c.toNat ≤ 127 by omega)

/-- The bytes of a character outside the ASCII range lie outside it. -/
theorem le_of_mem_encodeChar {c : Char} (h : 0x80 ≤ c.toNat) {b : UInt8} (hb : b ∈ String.utf8EncodeChar c) :
    0x80 ≤ b.toNat := by
  have hv : ¬ c.val.toNat ≤ 127 := by
    have : c.val.toNat = c.toNat := rfl
    omega
  unfold String.utf8EncodeChar at hb
  rw [if_neg hv] at hb
  split_ifs at hb <;> simp only [List.mem_cons, List.not_mem_nil, or_false] at hb <;>
    rcases hb with rfl | rfl | rfl | rfl <;> rw [UInt8.toNat_ofNat'] <;> omega

end Text.Utf8

namespace Json.Reader

open Text.Utf8

variable {rest : List UInt8}

/-! ## Texts -/

/-- Between quotes, the bytes stand for those others. -/
def Spells (input output : List UInt8) : Prop :=
  ∀ before rest p, ∃ p',
    textBytes .plain before (input ++ rest) p = textBytes .plain (output.reverse ++ before) rest p'

theorem spells_nil : Spells [] [] := fun _ _ p => ⟨p, rfl⟩

theorem Spells.append {input output input' output' : List UInt8} (h : Spells input output)
    (h' : Spells input' output') : Spells (input ++ input') (output ++ output') := by
  intro before rest p
  obtain ⟨p₁, h₁⟩ := h before (input' ++ rest) p
  obtain ⟨p₂, h₂⟩ := h' (output.reverse ++ before) rest p₁
  refine ⟨p₂, ?_⟩
  rw [List.append_assoc, h₁, h₂, List.reverse_append, List.append_assoc]

theorem spells_byte {b : UInt8} (hq : b ≠ 0x22) (hs : b ≠ 0x5C) (hc : ¬ b < 0x20) : Spells [b] [b] := by
  intro before rest p
  refine ⟨p.after b, ?_⟩
  rw [List.singleton_append, textBytes, textStep]
  simp only [if_neg hq, if_neg hs, if_neg hc]

theorem spells_bytes {bs : List UInt8} (h : ∀ b ∈ bs, 0x80 ≤ b.toNat) : Spells bs bs := by
  induction bs with
  | nil => exact spells_nil
  | cons b bs ih =>
    have hb : 0x80 ≤ b.toNat := h b List.mem_cons_self
    have hne : ∀ {n : UInt8}, n.toNat < 0x80 → b ≠ n := by
      rintro n hn rfl
      omega
    have hlt : ¬ b < 0x20 := by
      rw [UInt8.lt_iff_toNat_lt]
      have : (0x20 : UInt8).toNat = 0x20 := rfl
      omega
    exact (spells_byte (hne (by decide)) (hne (by decide)) hlt).append
      (ih fun b hm => h b (List.mem_cons_of_mem _ hm))

theorem spells_escape {b e : UInt8} (hu : b ≠ 0x75) (he : escapedByte? b = some e) : Spells [0x5C, b] [e] := by
  intro before rest p
  refine ⟨(p.after 0x5C).after b, ?_⟩
  show textBytes .escape before (b :: rest) (p.after 0x5C) = _
  rw [textBytes, textStep]
  simp only [if_neg hu, he]

/-- The four digits of a control character write its code point. -/
theorem hexNumber?_control : ∀ n < 0x20, hexNumber? [UInt8.ofNat (Nat.digitChar (n % 16)).toNat,
    UInt8.ofNat (Nat.digitChar (n / 16)).toNat, 0x30, 0x30] = some n := by
  decide

theorem encodeChar_digitChar : ∀ n < 16,
    String.utf8EncodeChar (Nat.digitChar n) = [UInt8.ofNat (Nat.digitChar n).toNat] := by
  decide

theorem codePoint_toNat (c : Char) : codePoint c.toNat = String.utf8EncodeChar c := by
  unfold codePoint
  rw [Char.ofNat_toNat, encode_eq_flatMap, String.toList_singleton, List.flatMap_singleton]

theorem spells_control {c : Char} (h : c.toNat < 0x20) :
    Spells (encodeChars ['\\', 'u', '0', '0', Nat.digitChar (c.toNat / 16), Nat.digitChar (c.toNat % 16)])
      (String.utf8EncodeChar c) := by
  intro before rest p
  have hh : c.toNat / 16 < 16 := by omega
  have hl : c.toNat % 16 < 16 := by omega
  have hn : isTrail c.toNat = false ∧ isLead c.toNat = false := by
    unfold isTrail isLead
    constructor <;> rw [Bool.and_eq_false_iff] <;> left <;> rw [decide_eq_false_iff_not] <;> omega
  simp only [encodeChars_cons, encodeChars_nil, encodeChar_digitChar _ hh, encodeChar_digitChar _ hl]
  generalize hx : UInt8.ofNat (Nat.digitChar (c.toNat / 16)).toNat = x
  generalize hy : UInt8.ofNat (Nat.digitChar (c.toNat % 16)).toNat = y
  have hxy : hexNumber? [y, x, 0x30, 0x30] = some c.toNat := by
    rw [← hx, ← hy]
    exact hexNumber?_control _ h
  -- six bytes lead from the plain state to the last of the four digits
  show ∃ p', textBytes (.hex none [x, 0x30, 0x30]) before (y :: rest) _ = _
  refine ⟨(((((((p.after 0x5C).after 0x75).after 0x30).after 0x30).after x).after y)), ?_⟩
  rw [textBytes, textStep, if_neg (by simp), hxy]
  simp only [afterHex, hn.1, hn.2, codePoint_toNat]
  rfl

/-- A character that is not escaped is spelled as it is. -/
theorem spells_char {c : Char} (hq : c ≠ '"') (hs : c ≠ '\\') (hc : ¬ c.toNat < 0x20) :
    Spells (String.utf8EncodeChar c) (String.utf8EncodeChar c) := by
  by_cases ha : c.toNat < 0x80
  · have hb : (UInt8.ofNat c.toNat).toNat = c.toNat := by
      rw [UInt8.toNat_ofNat']
      omega
    have hne : ∀ d : Char, d.toNat < 0x80 → c ≠ d → UInt8.ofNat c.toNat ≠ UInt8.ofNat d.toNat := by
      intro d hd hcd e
      have ht := congrArg UInt8.toNat e
      rw [hb, UInt8.toNat_ofNat', Nat.mod_eq_of_lt (by omega)] at ht
      exact hcd (Char.toNat_inj.1 ht)
    rw [encodeChar_of_ascii ha]
    refine spells_byte (hne '"' (by decide) hq) (hne '\\' (by decide) hs) ?_
    rw [UInt8.lt_iff_toNat_lt, hb]
    exact hc
  · exact spells_bytes fun b hb => le_of_mem_encodeChar (by omega) hb

/-- What is printed for a character between quotes stands for the character. -/
theorem spells_escapeChar (c : Char) : Spells (encodeChars (escapeChar c)) (String.utf8EncodeChar c) := by
  unfold escapeChar
  split_ifs with hq hs h₃ h₄ h₅ h₆ h₇ hc
  · subst hq
    exact (spells_escape (by decide) rfl : Spells [0x5C, 0x22] [0x22])
  · subst hs
    exact (spells_escape (by decide) rfl : Spells [0x5C, 0x5C] [0x5C])
  · subst h₃
    exact (spells_escape (by decide) rfl : Spells [0x5C, 0x62] [0x08])
  · subst h₄
    exact (spells_escape (by decide) rfl : Spells [0x5C, 0x74] [0x09])
  · subst h₅
    exact (spells_escape (by decide) rfl : Spells [0x5C, 0x6E] [0x0A])
  · subst h₆
    exact (spells_escape (by decide) rfl : Spells [0x5C, 0x66] [0x0C])
  · subst h₇
    exact (spells_escape (by decide) rfl : Spells [0x5C, 0x72] [0x0D])
  · exact spells_control hc
  · rw [encodeChars_cons, encodeChars_nil, List.append_nil]
    exact spells_char hq hs hc

theorem spells_chars (cs : List Char) : Spells (encodeChars (cs.flatMap escapeChar)) (encodeChars cs) := by
  induction cs with
  | nil => exact spells_nil
  | cons c cs ih =>
    rw [List.flatMap_cons, encodeChars_append, encodeChars_cons]
    exact (spells_escapeChar c).append ih

/-- A printed text without its opening quote is read back. -/
theorem gives_text (s : String) (rest : List UInt8) :
    Gives text (encodeChars (s.toList.flatMap escapeChar) ++ 0x22 :: rest) s rest := by
  intro p
  obtain ⟨p', h⟩ := spells_chars s.toList [] (0x22 :: rest) p
  refine ⟨p'.after 0x22, ?_⟩
  have hd : decode? (encodeChars s.toList) = some s := by
    rw [show encodeChars s.toList = encode s from (encode_eq_flatMap s).symm, decode?_encode]
  have ht : textBytes .plain [] (encodeChars (s.toList.flatMap escapeChar) ++ 0x22 :: rest) p =
      .ok (encodeChars s.toList, ⟨rest, p'.after 0x22⟩) := by
    rw [h, textBytes, textStep, if_pos rfl, List.append_nil]
    simp only [List.reverse_reverse]
  unfold text
  dsimp only
  rw [ht]
  simp only [hd]

theorem encodeChars_textChars (s : String) :
    encodeChars (textChars s) = 0x22 :: (encodeChars (s.toList.flatMap escapeChar) ++ [0x22]) := by
  unfold textChars
  rw [List.cons_append, encodeChars_cons, encodeChars_append]
  rfl

theorem head?_textChars (s : String) (bs : List UInt8) : (encodeChars (textChars s) ++ bs).head? = some 0x22 := by
  rw [encodeChars_textChars]
  rfl

/-- A printed key with the colon after it is read back. -/
theorem gives_key (s : String) (rest : List UInt8) :
    Gives key (encodeChars (textChars s) ++ 0x3A :: rest) s rest := by
  rw [encodeChars_textChars, List.cons_append, List.append_assoc]
  refine gives_bind (gives_skip _ _) (gives_bind (gives_text s (0x3A :: rest)) ?_)
  exact gives_bind (gives_colon rest) (gives_pure _ _)

/-! ## Digits -/

/-- What follows is no more of a number: neither a digit nor a fraction nor an exponent. -/
def Apart (rest : List UInt8) : Prop :=
  ∀ b, rest.head? = some b → isDigit b = false ∧ b ≠ 0x2E ∧ isExponentMark b = false

theorem apart_nil : Apart [] := by
  intro b h
  cases h

theorem apart_cons {b : UInt8} (hd : isDigit b = false) (hp : b ≠ 0x2E) (he : isExponentMark b = false)
    (bs : List UInt8) : Apart (b :: bs) := by
  intro b' h
  cases h
  exact ⟨hd, hp, he⟩

/-- The byte of a digit. -/
theorem encodeChar_of_isDigit {c : Char} (h : c.isDigit = true) :
    ∃ b, String.utf8EncodeChar c = [b] ∧ isDigit b = true ∧ digitValue b = c.toNat - '0'.toNat ∧
      (b = 0x30 → c = '0') := by
  unfold Char.isDigit at h
  rw [Bool.and_eq_true, decide_eq_true_eq, decide_eq_true_eq] at h
  have h₁ : 48 ≤ c.toNat := h.1
  have h₂ : c.toNat ≤ 57 := h.2
  have hb : (UInt8.ofNat c.toNat).toNat = c.toNat := by
    rw [UInt8.toNat_ofNat']
    omega
  refine ⟨UInt8.ofNat c.toNat, encodeChar_of_ascii (by omega), ?_, ?_, ?_⟩
  · unfold isDigit
    rw [Bool.and_eq_true, decide_eq_true_eq, decide_eq_true_eq, UInt8.le_iff_toNat_le, UInt8.le_iff_toNat_le, hb]
    exact ⟨h₁, h₂⟩
  · unfold digitValue
    rw [hb]
    rfl
  · intro e
    have ht := congrArg UInt8.toNat e
    rw [hb] at ht
    exact Char.toNat_inj.1 ht

theorem ne_of_isDigit {b c : UInt8} (hb : isDigit b = true) (hc : isDigit c = false) : b ≠ c := by
  rintro rfl
  rw [hb] at hc
  cases hc

theorem isSpace_of_isDigit {b : UInt8} (h : isDigit b = true) : isSpace b = false := by
  have hne : ∀ {c : UInt8}, isDigit c = false → (b == c) = false := fun hc =>
    beq_eq_false_iff_ne.2 (ne_of_isDigit h hc)
  unfold isSpace
  rw [hne (by decide), hne (by decide), hne (by decide), hne (by decide)]
  rfl

theorem appendDigits_of_apart {limit : Nat} (h : Apart rest) (n count : Nat) :
    appendDigits limit n count rest = (n, count, rest) := by
  cases rest with
  | nil => rfl
  | cons b rest =>
    rw [appendDigits, (h b rfl).1]
    rfl

/-- Digits are all read, as long as the number that they make is within the limit. -/
theorem appendDigits_encodeChars {limit : Nat} (h : Apart rest) : ∀ (ds : List Char) (n count : Nat),
    (∀ c ∈ ds, c.isDigit = true) → Nat.ofDigitChars 10 ds n ≤ limit →
    appendDigits limit n count (encodeChars ds ++ rest) = (Nat.ofDigitChars 10 ds n, count + ds.length, rest)
  | [], n, count, _, _ => appendDigits_of_apart h n count
  | c :: ds, n, count, hd, hl => by
    obtain ⟨b, hb, hdigit, hvalue, -⟩ := encodeChar_of_isDigit (hd c List.mem_cons_self)
    have hstep : n * 10 + digitValue b = 10 * n + (c.toNat - '0'.toNat) := by
      rw [hvalue, Nat.mul_comm]
    rw [Nat.ofDigitChars_cons] at hl ⊢
    rw [encodeChars_cons, hb, List.singleton_append, List.cons_append, appendDigits, hdigit, hstep,
      decide_eq_true ((Text.le_ofDigitChars ds _).trans hl)]
    show appendDigits limit _ (count + 1) _ = _
    rw [appendDigits_encodeChars h ds _ _ (fun c hm => hd c (List.mem_cons_of_mem _ hm)) hl, List.length_cons,
      Nat.add_assoc, Nat.add_comm 1]

theorem gives_digits {limit n : Nat} {ds : List Char} (h : Apart rest) (hd : ∀ c ∈ ds, c.isDigit = true)
    (hl : Nat.ofDigitChars 10 ds n ≤ limit) :
    Gives (digits limit n) (encodeChars ds ++ rest) (Nat.ofDigitChars 10 ds n, ds.length) rest := by
  intro p
  unfold digits
  dsimp only
  rw [appendDigits_encodeChars h ds n 0 hd hl, Nat.zero_add]
  exact ⟨_, rfl⟩

theorem gives_skipDigits (h : Apart rest) : Gives skipDigits rest 0 rest := by
  intro p
  cases rest with
  | nil => exact ⟨_, rfl⟩
  | cons b rest =>
    have hb := (h b rfl).1
    unfold skipDigits
    dsimp only
    rw [List.takeWhile_cons_of_neg (by rw [hb]; decide), List.dropWhile_cons_of_neg (by rw [hb]; decide)]
    exact ⟨_, rfl⟩

/-! ## Integers -/

theorem gives_afterInteger (h : Apart rest) (negative : Bool) (n : Nat) :
    Gives (afterInteger negative n 0) rest (whole negative n) rest := by
  cases rest with
  | nil => exact gives_bind (fun p => ⟨p, rfl⟩) (gives_pure _ _)
  | cons b rest =>
    obtain ⟨-, hp, he⟩ := h b rfl
    refine gives_bind (gives_peek b rest) ?_
    dsimp only
    rw [if_neg hp, if_neg (by rw [he]; decide), if_pos rfl]
    exact gives_pure _ _

theorem whole_of_neg {n : Int} (hn : n < 0) (hl : -9223372036854775808 ≤ n) : whole true n.natAbs = .int n := by
  have hz : -(n.natAbs : Int) = n := by omega
  unfold whole
  rw [if_neg (by decide), if_pos (by omega), hz]

theorem whole_of_nonneg {n : Int} (hn : 0 ≤ n) : whole false n.natAbs = .int n := by
  have hz : (n.natAbs : Int) = n := by omega
  unfold whole
  rw [if_pos (by decide), hz]

/-- A number other than zero does not begin with a zero. -/
theorem toDigits_head {n : Nat} (h : 0 < n) : ∃ c ds, Nat.toDigits 10 n = c :: ds ∧ c ≠ '0' := by
  induction n using Nat.strong_induction_on with
  | _ n ih =>
    by_cases hn : n < 10
    · refine ⟨Nat.digitChar n, [], Nat.toDigits_of_lt_base hn, ?_⟩
      interval_cases n <;> decide
    · obtain ⟨c, ds, hc, hne⟩ := ih (n / 10) (by omega) (by omega)
      refine ⟨c, ds ++ [Nat.digitChar (n % 10)], ?_, hne⟩
      rw [Nat.toDigits_of_base_le (by decide) (by omega), hc, List.cons_append]

/-- The printed digits of a number are read back. -/
theorem gives_number (h : Apart rest) (negative : Bool) {n : Nat} (hn : n ≤ significandLimit) :
    Gives (number negative) (encodeChars (Nat.toDigits 10 n) ++ rest) (whole negative n) rest := by
  rcases Nat.eq_zero_or_pos n with rfl | hpos
  · show Gives (number negative) (0x30 :: rest) _ _
    refine gives_bind (gives_next _ _) ?_
    dsimp only
    rw [if_pos rfl]
    have hd : ((rest.head?).map isDigit).getD false = false := by
      cases rest with
      | nil => rfl
      | cons b rest => exact (h b rfl).1
    refine gives_bind (x := rest.head?) (fun p => ⟨p, rfl⟩) ?_
    rw [if_neg (by rw [hd]; decide)]
    exact gives_afterInteger h negative 0
  · obtain ⟨c, ds, hcs, hne⟩ := toDigits_head hpos
    have hdigits : ∀ d ∈ c :: ds, d.isDigit = true := fun d hd =>
      Nat.isDigit_of_mem_toDigits (by decide) (by decide) (hcs ▸ hd)
    obtain ⟨b, hb, hdigit, hvalue, hzero⟩ := encodeChar_of_isDigit (hdigits c List.mem_cons_self)
    have hval : Nat.ofDigitChars 10 ds (digitValue b) = n := by
      have hall := Nat.ofDigitChars_ten_toDigits (n := n)
      rw [hcs, Nat.ofDigitChars_cons, Nat.mul_zero, Nat.zero_add] at hall
      rw [hvalue, hall]
    rw [hcs, encodeChars_cons, hb, List.singleton_append, List.cons_append]
    refine gives_bind (gives_next _ _) ?_
    dsimp only
    rw [if_neg fun e => hne (hzero e), if_pos hdigit]
    have hrest := gives_digits h (fun d hd => hdigits d (List.mem_cons_of_mem _ hd)) (hval.trans_le hn)
    refine gives_bind hrest ?_
    rw [hval]
    exact gives_bind (gives_skipDigits h) (gives_afterInteger h negative n)

end Json.Reader

end AccessRecords
