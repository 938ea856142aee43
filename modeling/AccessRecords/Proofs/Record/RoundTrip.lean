/-
Printed roles, policies and seeds are read back. A seed is read straight from its text, three brackets
further in than the conditions of its policies; the body of a request is read as a value first, in
which the fields stand in the order of their names.
-/
import AccessRecords.Proofs.Json.Fields
import AccessRecords.Proofs.Record.Conditions

namespace AccessRecords

open Json Json.Reader

/-! ## Fields -/

theorem Effect.takes_name (e : Effect) (d : Nat) : Takes (Effect.decoder.read d) (.text e.name) e := by
  intro rest _
  rw [Value.chars, encodeChars_textChars, List.cons_append, List.append_assoc]
  refine gives_bind (gives_peekToken (by decide) _) ?_
  refine gives_bind (gives_skip _ _) (gives_bind (gives_text e.name rest) ?_)
  cases e <;> exact gives_pure _ _

/-! ## Roles -/

theorem Role.takes_toMembers (r : Role) (d : Nat) : Takes (Role.schema.read (d + 2)) (.object r.toMembers) r :=
  Schema.takes_read <|
    .member rfl (by decide) (Field.takes_of (Decoder.takes_text r.id _) _) <|
    .member rfl (by decide) (Field.takes_of (Decoder.takes_texts r.members d) _) .done

/-! ## Policies -/

/-- How deep the conditions may be nested follows from how deep the policy may. -/
theorem Policy.takes_toMembers {p : Policy} {d : Nat} (h : p.conditions.Fits (d + 1)) :
    Takes (Policy.schema.read (d + 2)) (.object p.toMembers) p :=
  Schema.takes_read <|
    .member rfl (by decide) (Field.takes_of (Decoder.takes_text p.id _) _) <|
    .member rfl (by decide) (Field.takes_of (Decoder.takes_text p.description _) _) <|
    .member rfl (by decide) (Field.takes_of (Decoder.takes_texts p.subjects d) _) <|
    .member rfl (by decide) (Field.takes_of (Decoder.takes_texts p.resources d) _) <|
    .member rfl (by decide) (Field.takes_of (Decoder.takes_texts p.actions d) _) <|
    .member rfl (by decide) (Field.takes_of (p.effect.takes_name _) _) <|
    .member rfl (by decide) (Field.takes_of (Decoder.takes_any h) _) .done

/-! ## Bodies -/

/-- The fields of a role are in the order of their names. -/
theorem Role.insertAll_toMembers (r : Role) : .object (Entries.insertAll [] r.toMembers) = r.toValue := by
  unfold Entries.insertAll Role.toMembers
  simp (disch := decide) only [List.foldl_cons, List.foldl_nil, Entries.insert_nil, Entries.insert_cons_of_gt]
  rfl

/-- The fields of a policy are put in the order of their names. -/
theorem Policy.insertAll_toMembers (p : Policy) : .object (Entries.insertAll [] p.toMembers) = p.toValue := by
  unfold Entries.insertAll Policy.toMembers
  simp (disch := decide) only [List.foldl_cons, List.foldl_nil, Entries.insert_nil, Entries.insert_cons_of_lt,
    Entries.insert_cons_of_gt]
  rfl

theorem Role.ofBody_toMembers (r : Role) :
    Record.ofBody .roles (Text.Utf8.encode (Value.object r.toMembers).print) = .ok (.role r) := by
  have hparse : Value.parse (Text.Utf8.encode (Value.object r.toMembers).print) = .ok r.toValue := by
    rw [← r.insertAll_toMembers]
    refine Value.parse_print_object ?_ ?_
    · rintro m ⟨⟩
      exact (by decide : "id" ≠ Value.embeddingKey)
    · simp only [Role.toMembers, List.forall_mem_cons]
      exact ⟨Value.fits_text _ _, Value.fits_texts _ _, by simp⟩
  unfold Record.ofBody
  rw [hparse]
  show ((Role.schema.ofValue r.toValue).map Record.role).mapError _ = _
  rw [Role.ofValue_toValue]
  rfl

theorem Policy.ofBody_toMembers {p : Policy} (h : p.conditions.Fits 126) (hp : p.conditions.isPlain = true) :
    Record.ofBody .policies (Text.Utf8.encode (Value.object p.toMembers).print) = .ok (.policy p) := by
  have hparse : Value.parse (Text.Utf8.encode (Value.object p.toMembers).print) = .ok p.toValue := by
    rw [← p.insertAll_toMembers]
    refine Value.parse_print_object ?_ ?_
    · rintro m ⟨⟩
      exact (by decide : "id" ≠ Value.embeddingKey)
    · simp only [Policy.toMembers, List.forall_mem_cons]
      exact ⟨Value.fits_text _ _, Value.fits_text _ _, Value.fits_texts _ _, Value.fits_texts _ _,
        Value.fits_texts _ _, Value.fits_text _ _, h, by simp⟩
  unfold Record.ofBody
  rw [hparse]
  show ((Policy.schema.ofValue p.toValue).map Record.policy).mapError _ = _
  rw [Policy.ofValue_toValue, Value.resolve_of_isPlain hp]
  rfl

/-! ## Seeds -/

theorem Seed.takes_toMembers {seed : Seed} {d : Nat} (h : ∀ p ∈ seed.policies, p.conditions.Fits (d + 1)) :
    Takes (Seed.schema.read (d + 4)) (.object seed.toMembers) seed := by
  have hroles : Takes ((Decoder.list Role.schema.decoder).read (d + 3))
      (.list (seed.roles.map fun r => .object r.toMembers)) seed.roles := by
    refine Decoder.takes_list ?_
    rw [List.forall₂_map_left_iff, List.forall₂_same]
    exact fun r _ => ⟨opens_chars (by simp), r.takes_toMembers d⟩
  have hpolicies : Takes ((Decoder.list Policy.schema.decoder).read (d + 3))
      (.list (seed.policies.map fun p => .object p.toMembers)) seed.policies := by
    refine Decoder.takes_list ?_
    rw [List.forall₂_map_left_iff, List.forall₂_same]
    exact fun p hp => ⟨opens_chars (by simp), Policy.takes_toMembers (h p hp)⟩
  exact Schema.takes_read <|
    .member rfl (by decide) (Field.takes_of hroles _) <|
    .member rfl (by decide) (Field.takes_of hpolicies _) .done

/-- The text of a seed describes the seed. -/
theorem Seed.parse_print {seed : Seed} (h : ∀ p ∈ seed.policies, p.conditions.Fits 124) :
    Seed.schema.decoder.parse (Text.Utf8.encode seed.print) = .ok seed :=
  runAll_of_takes (Seed.takes_toMembers (d := 123) h)

end AccessRecords
