import TagWire.Wire.Kind

/-!
Cutting bytes into tokens from the left. A rule cuts one token off the front; used again and again
it divides all the bytes, and what it does to one stretch does not depend on what follows.
-/

namespace TagWire

variable {α : Type}

/-- A rule cuts bytes properly: a token has bytes of its own, they stand in front of what is left,
and they are cut off in the same way whatever follows them.
-/
structure CutsFront (first? : Bytes → Option (α × Bytes)) (bytesOf : α → Bytes) : Prop where
  nonempty : ∀ {bytes token rest}, first? bytes = some (token, rest) → bytesOf token ≠ []
  divides
    : ∀ {bytes token rest}, first? bytes = some (token, rest) → bytes = bytesOf token ++ rest
  anywhere
    : ∀ {bytes token rest},
        first? bytes = some (token, rest)
        → ∀ more, first? (bytesOf token ++ more) = some (token, more)

/-- Cut bytes into tokens till none are left. A rule that takes nothing off divides nothing. -/
def cutAll? (first? : Bytes → Option (α × Bytes)) (bytes : Bytes) : Option (List α) :=
  if bytes = [] then some []
  else
    match first? bytes with
    | none => none
    | some (token, rest) =>
        if rest.length < bytes.length then (cutAll? first? rest).map (token :: ·) else none
termination_by bytes.length

namespace CutsFront

variable {first? : Bytes → Option (α × Bytes)} {bytesOf : α → Bytes}

@[simp] theorem cutAll?_nil : cutAll? first? [] = some [] := by
  rw [cutAll?]
  rfl

theorem cutAll?_of_none {bytes : Bytes} (hne : bytes ≠ []) (hf : first? bytes = none)
    : cutAll? first? bytes = none := by
  rw [cutAll?, if_neg hne, hf]

theorem rest_length_lt (cuts : CutsFront first? bytesOf) {bytes : Bytes} {token : α} {rest : Bytes}
    (h : first? bytes = some (token, rest))
    : rest.length < bytes.length := by
  have hpos := List.length_pos_iff.mpr (cuts.nonempty h)
  have hlen := congrArg List.length (cuts.divides h)
  rw [List.length_append] at hlen
  omega

theorem cutAll?_of_some (cuts : CutsFront first? bytesOf) {bytes : Bytes} {token : α}
    {rest : Bytes} (h : first? bytes = some (token, rest))
    : cutAll? first? bytes = (cutAll? first? rest).map (token :: ·) := by
  have hlt := cuts.rest_length_lt h
  have hne : bytes ≠ [] := List.ne_nil_of_length_pos (by omega)
  rw [cutAll?, if_neg hne, h]
  simp only [hlt, if_true]

/-- A token that can be cut off can be cut off alone. -/
theorem alone (cuts : CutsFront first? bytesOf) {bytes : Bytes} {token : α} {rest : Bytes}
    (h : first? bytes = some (token, rest))
    : first? (bytesOf token) = some (token, []) := by
  simpa using cuts.anywhere h []

/-- Tokens that can be cut off alone are cut off again where they stand in a row. -/
theorem cutAll?_flatMap_append (cuts : CutsFront first? bytesOf) {tokens : List α}
    (h : ∀ token ∈ tokens, first? (bytesOf token) = some (token, [])) (more : Bytes)
    : cutAll? first? (tokens.flatMap bytesOf ++ more)
      = (cutAll? first? more).map (tokens ++ ·) := by
  induction tokens with
  | nil => simp
  | cons token rest ih =>
      have hfirst := cuts.anywhere (h token (by simp)) (rest.flatMap bytesOf ++ more)
      rw [List.flatMap_cons, List.append_assoc, cuts.cutAll?_of_some hfirst,
        ih (fun other ho => h other (by simp [ho])), Option.map_map]
      rfl

theorem cutAll?_flatMap (cuts : CutsFront first? bytesOf) {tokens : List α}
    (h : ∀ token ∈ tokens, first? (bytesOf token) = some (token, []))
    : cutAll? first? (tokens.flatMap bytesOf) = some tokens := by
  simpa using cuts.cutAll?_flatMap_append h []

/-- The tokens that bytes are cut into make up the bytes, by induction on the length that is left.
-/
theorem of_cutAll? (cuts : CutsFront first? bytesOf) {bytes : Bytes} {tokens : List α}
    (h : cutAll? first? bytes = some tokens)
    : bytes = tokens.flatMap bytesOf
      ∧ ∀ token ∈ tokens, first? (bytesOf token) = some (token, []) := by
  induction hn : bytes.length using Nat.strongRecOn generalizing bytes tokens with
  | ind n ih =>
      subst hn
      by_cases hne : bytes = []
      · subst hne
        obtain rfl : [] = tokens := by simpa using h
        simp
      · cases hf : first? bytes with
        | none => simp [cutAll?_of_none hne hf] at h
        | some cut =>
            rcases cut with ⟨token, rest⟩
            rw [cuts.cutAll?_of_some hf] at h
            obtain ⟨others, ho, rfl⟩ := Option.map_eq_some_iff.mp h
            obtain ⟨hb, hall⟩ := ih rest.length (cuts.rest_length_lt hf) ho rfl
            refine ⟨?_, ?_⟩
            · rw [List.flatMap_cons, ← hb]
              exact cuts.divides hf
            · intro other hm
              rcases List.mem_cons.mp hm with rfl | hm
              · exact cuts.alone hf
              · exact hall other hm

/-- Bytes that can be cut are cut in the same way in front of others. -/
theorem cutAll?_append (cuts : CutsFront first? bytesOf) {bytes : Bytes} {tokens : List α}
    (h : cutAll? first? bytes = some tokens) (more : Bytes)
    : cutAll? first? (bytes ++ more) = (cutAll? first? more).map (tokens ++ ·) := by
  obtain ⟨rfl, hall⟩ := cuts.of_cutAll? h
  exact cuts.cutAll?_flatMap_append hall more

end CutsFront

end TagWire
