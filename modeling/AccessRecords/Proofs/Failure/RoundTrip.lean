/-
Printed failures are read back. The kind is named by one of the members, which need not be the first,
so the others are held as values until the whole object is read; only then are the code and the
message looked for among them. Nothing of this depends on the order of the members.
-/
import AccessRecords.Failure.Reader
import AccessRecords.Proofs.Json.Fields
import Mathlib.Data.List.Permutation

namespace AccessRecords.Failure

open Json Json.Reader Text.Utf8

variable {d : Nat} {k : Kind} {l before after others : List (String × Value)}

/-! ## Kinds -/

@[simp] theorem Kind.ofName?_name (k : Kind) : Kind.ofName? k.name = some k := by cases k <;> decide

theorem Kind.takes_name (k : Kind) : Takes readKind (.text k.name) k := by
  intro rest _
  rw [Value.chars, encodeChars_textChars, List.cons_append, List.append_assoc]
  refine gives_bind (gives_peekToken (by decide) _) ?_
  refine gives_bind (gives_skip _ _) (gives_bind (gives_text k.name rest) ?_)
  rw [Kind.ofName?_name]
  exact gives_pure _ _

/-! ## The members -/

/-- The only member named `type` names the kind, unless the kind was named before these members;
`others` are the members of other names, in order. -/
inductive Names (d : Nat) : Option Kind → List (String × Value) → Kind → List (String × Value) → Prop
  | done {k : Kind} : Names d (some k) [] k []
  | kind {k : Kind} {l others : List (String × Value)} :
      Names d (some k) l k others → Names d none (("type", .text k.name) :: l) k others
  | other {known : Option Kind} {name : String} {v : Value} {k : Kind} {l others : List (String × Value)} :
      name ≠ "type" → v.Fits d → Names d known l k others → Names d known ((name, v) :: l) k ((name, v) :: others)

/-- Once the kind is known, the other members are all there are. -/
theorem names_others (h : ∀ m ∈ l, m.1 ≠ "type" ∧ m.2.Fits d) : Names d (some k) l k l := by
  induction l with
  | nil => exact .done
  | cons m l ih =>
    obtain ⟨⟨hname, hv⟩, hl⟩ := List.forall_mem_cons.1 h
    exact .other hname hv (ih hl)

/-- The kind may be named anywhere among the other members. -/
theorem names_of_split (h : ∀ m ∈ before ++ after, m.1 ≠ "type" ∧ m.2.Fits d) :
    Names d none (before ++ ("type", .text k.name) :: after) k (before ++ after) := by
  induction before with
  | nil => exact .kind (names_others h)
  | cons m before ih =>
    obtain ⟨⟨hname, hv⟩, hl⟩ := List.forall_mem_cons.1 h
    exact .other hname hv (ih hl)

/-! ## Reading the members -/

variable {known : Option Kind} {fuel : Nat} {first : Bool} {input bs rest : List UInt8}
  {found : Kind × List (String × Value)}

/-- A member that does not name the kind is held, and reading goes on behind it. -/
theorem gives_other {name : String} {v : Value}
    (hfirst : Gives (hasMember first) input true
      (encodeChars (textChars name) ++ 0x3A :: (encodeChars v.chars ++ bs)))
    (hname : name ≠ "type") (hv : v.Fits d) (hbs : Apart bs)
    (hl : Gives (readMembers d fuel false known ((name, v) :: before)) bs found rest) :
    Gives (readMembers d (fuel + 1) first known before) input found rest := by
  have hvalue : Takes (anyValue false d) v v := takes_anyValue (hv.readsBack false).takes
  refine gives_bind hfirst ?_
  rw [if_pos rfl, encodeChars_textChars, List.cons_append, List.append_assoc]
  refine gives_bind (gives_skip _ _) (gives_bind (gives_text name _) ?_)
  rw [if_neg hname]
  exact gives_bind (gives_colon _) (gives_bind (hvalue bs hbs) hl)

/-- The member that names the kind is read as a kind, and the members held before it stay held. -/
theorem gives_kind
    (hfirst : Gives (hasMember first) input true
      (encodeChars (textChars "type") ++ 0x3A :: (encodeChars (Value.text k.name).chars ++ bs)))
    (hbs : Apart bs) (hl : Gives (readMembers d fuel false (some k) before) bs found rest) :
    Gives (readMembers d (fuel + 1) first none before) input found rest := by
  refine gives_bind hfirst ?_
  rw [if_pos rfl, encodeChars_textChars, List.cons_append, List.append_assoc]
  refine gives_bind (gives_skip _ _) (gives_bind (gives_text "type" _) ?_)
  rw [if_pos rfl, if_neg (by simp)]
  exact gives_bind (gives_colon _) (gives_bind (k.takes_name bs hbs) hl)

/-- The members after the first one are read, after those held before them. -/
theorem Names.gives_readMembers (h : Names d known l k others) : ∀ fuel before rest, l.length < fuel →
    Gives (readMembers d fuel false known before) (encodeChars (Value.membersChars l) ++ rest)
      (k, before.reverse ++ others) rest := by
  induction h with
  | done =>
    intro fuel before rest hf
    obtain ⟨fuel, rfl⟩ : ∃ n, fuel = n + 1 := ⟨fuel - 1, by omega⟩
    rw [List.append_nil]
    exact gives_bind (gives_hasMember_end false rest) (gives_bind (gives_skip _ _) (gives_pure _ _))
  | @kind k l others _ ih =>
    intro fuel before rest hf
    rw [List.length_cons] at hf
    obtain ⟨fuel, rfl⟩ : ∃ n, fuel = n + 1 := ⟨fuel - 1, by omega⟩
    rw [encodeChars_membersChars_cons]
    exact gives_kind (gives_hasMember_next (head?_textChars _ _)) (apart_membersChars l rest)
      (ih fuel before rest (by omega))
  | @other known name v k l others hname hv _ ih =>
    intro fuel before rest hf
    rw [List.length_cons] at hf
    obtain ⟨fuel, rfl⟩ : ∃ n, fuel = n + 1 := ⟨fuel - 1, by omega⟩
    have hrest := ih fuel ((name, v) :: before) rest (by omega)
    rw [List.reverse_cons, List.append_assoc] at hrest
    rw [encodeChars_membersChars_cons]
    exact gives_other (gives_hasMember_next (head?_textChars name _)) hname hv (apart_membersChars l rest) hrest

/-- The printed object is read as the failure that the other members make of the kind. -/
theorem Names.takes_read (h : Names d none l k others) :
    Takes (read (d + 1)) (.object l) (ofMembers k others) := by
  intro rest hr
  have hread : ∀ {bs : List UInt8}, Gives (readMembers d (bs.length + 1) true none []) bs (k, others) rest →
      Gives (read (d + 1)) (0x7B :: bs) (ofMembers k others) rest := fun {bs} hg =>
    gives_bind (gives_peekToken (by decide) bs)
      (gives_bind (gives_bind (gives_skip _ _) (gives_pure _ _))
        (gives_bind (fun p => hg p) (gives_pure _ _)))
  cases h with
  | @kind _ l _ hl =>
    rw [encodeChars_object_cons]
    exact hread (gives_kind (gives_hasMember_first (head?_textChars _ _)) (apart_membersChars l rest)
      (hl.gives_readMembers _ [] rest (length_lt_encodeMembers _ _ l rest)))
  | @other _ name v _ l others hname hv hl =>
    rw [encodeChars_object_cons]
    exact hread (gives_other (gives_hasMember_first (head?_textChars name _)) hname hv
      (apart_membersChars l rest) (hl.gives_readMembers _ [(name, v)] rest (length_lt_encodeMembers name v l rest)))

/-! ## The code and the message -/

theorem ofMembers_perm (f : Failure) (h : l.Perm [("code", .text f.code), ("message", .text f.message)]) :
    ofMembers f.kind l = .ok f := by
  obtain rfl | rfl := List.perm_pair.1 h <;> rfl

/-! ## Failures -/

/-- The members of a failure in some order are its kind's among the code and the message. -/
theorem exists_split_of_perm {f : Failure} (h : l.Perm f.toMembers) :
    ∃ before after, l = before ++ ("type", .text f.kind.name) :: after ∧
      (before ++ after).Perm [("code", .text f.code), ("message", .text f.message)] := by
  have hmem : ("type", .text f.kind.name) ∈ l := h.mem_iff.2 List.mem_cons_self
  obtain ⟨before, after, rfl⟩ := List.append_of_mem hmem
  exact ⟨before, after, rfl, (List.perm_middle.symm.trans h).cons_inv⟩

/-- The text of an object is read as the failure whose members it has, in whichever order. -/
theorem parse_print_perm {f : Failure} (h : l.Perm f.toMembers) :
    parse (Text.Utf8.encode (Value.object l).print) = .ok f := by
  obtain ⟨before, after, rfl, hperm⟩ := exists_split_of_perm h
  have hothers : ∀ m ∈ before ++ after, m.1 ≠ "type" ∧ m.2.Fits 126 := by
    intro m hm
    have hm := hperm.mem_iff.1 hm
    simp only [List.mem_cons, List.not_mem_nil, or_false] at hm
    obtain rfl | rfl := hm <;> exact ⟨by simp, Value.fits_text _ _⟩
  refine runAll_of_takes fun rest hr => ?_
  have hread := (names_of_split (k := f.kind) hothers).takes_read rest hr
  rw [ofMembers_perm f hperm] at hread
  exact gives_bind hread (gives_pure f rest)

/-- A failure's document is read back as the failure, with its three members in any order; so no two
failures have the same text. -/
theorem parse_print_any_order (f : Failure) :
    parse (Text.Utf8.encode f.toValue.print) = .ok f ∧
    (∀ members, members.Perm f.toMembers → parse (Text.Utf8.encode (Value.object members).print) = .ok f) ∧
    (∀ g : Failure, f ≠ g → f.toValue.print ≠ g.toValue.print) := by
  have hparse : ∀ g : Failure, parse (Text.Utf8.encode g.toValue.print) = .ok g := fun g =>
    parse_print_perm (List.Perm.refl g.toMembers)
  refine ⟨hparse f, fun members h => parse_print_perm h, fun g hne hprint => hne ?_⟩
  have heq : (.ok f : Except Fault Failure) = .ok g := by rw [← hparse f, hprint, hparse g]
  exact Except.ok.inj heq

end AccessRecords.Failure
