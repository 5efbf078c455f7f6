import TagWire.Decoding.Basic
import TagWire.Proofs.Cursor.TokenReads

/-!
Decoding steps as rules on bytes. A step takes a stretch off the front of what the cursor may still
read, or uses all of it up; windows and loops make larger steps of this sort out of smaller ones.
-/

namespace TagWire

namespace Decoder

variable {α β : Type}

/-- What a step gives, and the cursor after it, unless it fails. -/
def outcome? (step : Decoder α) (cursor : Cursor) : Option (α × Cursor) := (step cursor).toOption

@[simp] theorem outcome?_pure (value : α) (cursor : Cursor)
    : outcome? (pure value : Decoder α) cursor = some (value, cursor) :=
  rfl

@[simp] theorem outcome?_bind (step : Decoder α) (next : α → Decoder β) (cursor : Cursor)
    : outcome? (step >>= next) cursor
      = (outcome? step cursor).bind (fun out => outcome? (next out.1) out.2) := by
  simp only [outcome?, bind, StateT.bind, Except.bind]
  cases step cursor <;> rfl

@[simp] theorem outcome?_throw (error : DecodeError) (cursor : Cursor)
    : outcome? (throw error : Decoder α) cursor = none :=
  rfl

@[simp] theorem outcome?_look (view : Cursor → α) (cursor : Cursor)
    : outcome? (look view) cursor = some (view cursor, cursor) :=
  rfl

@[simp] theorem outcome?_located (offset : Nat) (read : Read α) (cursor : Cursor)
    : outcome? (located offset read) cursor = read.outcome? cursor := by
  simp only [outcome?, located, Read.outcome?]
  cases read cursor <;> rfl

@[simp] theorem outcome?_here (read : Read α) (cursor : Cursor)
    : outcome? (here read) cursor = read.outcome? cursor := by
  simp only [here, outcome?_bind, outcome?_look, Option.bind_some, outcome?_located]

/-- A step takes a token off the front of what may be read, and makes a value of it. -/
def Takes (step : Decoder α) (first? : Bytes → Option (β × Bytes)) (make? : β → Option α) : Prop :=
  ∀ cursor : Cursor,
    cursor.Bounded
    → step.outcome? cursor
      = (first? cursor.view).bind (fun cut =>
          (make? cut.1).map (fun value => (value, cursor.leave cut.2)))

/-- A step reads all that may be read. -/
def UsesUp (step : Decoder α) (read? : Bytes → Option α) : Prop :=
  ∀ cursor : Cursor,
    cursor.Bounded
    → step.outcome? cursor = (read? cursor.view).map (fun value => (value, cursor.leave []))

/-- A step that takes a token off does so behind what was read before. -/
theorem Takes.outcome?_leave {step : Decoder α} {first? : Bytes → Option (β × Bytes)}
    {make? : β → Option α} (h : step.Takes first? make?) {cursor : Cursor} (hb : cursor.Bounded)
    {token after : Bytes} (hv : cursor.view = token ++ after)
    : step.outcome? (cursor.leave after)
      = (first? after).bind (fun cut =>
          (make? cut.1).map (fun value => (value, cursor.leave cut.2))) := by
  rw [h _ (hb.leave after), hb.view_leave hv]
  rfl

theorem UsesUp.congr {step : Decoder α} {read? other? : Bytes → Option α}
    (h : step.UsesUp read?) (same : ∀ bytes, read? bytes = other? bytes)
    : step.UsesUp other? := by
  obtain rfl : read? = other? := funext same
  exact h

/-- A window on a part of what may be read shows that part, and no more. -/
theorem outcome?_openWindow {cursor : Cursor} (h : cursor.Bounded) (width : Nat)
    : Read.outcome? (Cursor.openWindow width) cursor
      = if width ≤ cursor.view.length then
          some ((), { cursor with windows := (cursor.offset + width) :: cursor.windows })
        else none := by
  have hlen := h.length_view
  have ho := h.offset_le
  have hl := h.limit_le
  by_cases hw : width ≤ cursor.view.length
  · have hsize : ¬ cursor.buffer.size < cursor.offset + width := by omega
    have hlimit : ¬ cursor.limit < cursor.offset + width := by omega
    simp only [Read.outcome?, Cursor.openWindow, if_neg hsize, if_neg hlimit, if_pos hw]
  · have hlimit : cursor.limit < cursor.offset + width := by omega
    rw [if_neg hw]
    simp only [Read.outcome?, Cursor.openWindow, if_pos hlimit]
    by_cases hsize : cursor.buffer.size < cursor.offset + width
    · rw [if_pos hsize]
    · rw [if_neg hsize]

section Window

variable {cursor : Cursor} {content rest : Bytes}

/-- The cursor inside a window on the first bytes that may be read. -/
def within (cursor : Cursor) (content : Bytes) : Cursor :=
  { cursor with windows := (cursor.offset + content.length) :: cursor.windows }

theorem bounded_within (h : cursor.Bounded) (hv : cursor.view = content ++ rest)
    : (within cursor content).Bounded := by
  have hlen := h.length_view
  have hl := h.limit_le
  rw [hv, List.length_append] at hlen
  have ho := h.offset_le
  refine ⟨Nat.le_add_right _ _, ?_⟩
  show cursor.offset + content.length ≤ cursor.buffer.size
  omega

theorem view_within (h : cursor.Bounded) (hv : cursor.view = content ++ rest)
    : (within cursor content).view = content := by
  have hlen := h.length_view
  rw [hv, List.length_append] at hlen
  calc (within cursor content).view
    _ = (cursor.buffer.toList.drop cursor.offset).take content.length := by
        rw [Cursor.view, Cursor.slice_eq]
        show _ = _
        simp only [within, Cursor.limit, List.headD_cons, Nat.add_sub_cancel_left]
    _ = cursor.view.take content.length := by
        rw [Cursor.view, Cursor.slice_eq, List.take_take, Nat.min_eq_left (by omega)]
    _ = content := by rw [hv, List.take_left]

/-- Closing a window that is used up leaves the cursor before what follows the window. -/
theorem outcome?_closeWindow (h : cursor.Bounded) (hv : cursor.view = content ++ rest)
    : Read.outcome? Cursor.closeWindow ((within cursor content).leave [])
      = some ((), cursor.leave rest) := by
  have hoff := h.offset_leave hv
  have hin : (within cursor content).leave []
      = { buffer := cursor.buffer
          offset := cursor.offset + content.length
          windows := (cursor.offset + content.length) :: cursor.windows } :=
    rfl
  have hout : cursor.leave rest
      = { cursor with offset := cursor.offset + content.length } := by
    rw [← hoff]
    rfl
  simp only [hin, hout, Read.outcome?, Cursor.closeWindow, Nat.lt_irrefl, if_false]

end Window

/-- A step that uses up what it may read, in a window, takes a delimited payload off the front. -/
theorem UsesUp.inWindow {body : Decoder α} {read? : Bytes → Option α} (h : body.UsesUp read?)
    : (inWindow body).Takes WireKind.lengthDelimited.payload?
        (fun payload => read? payload.content) := by
  intro cursor hc
  simp only [Decoder.inWindow, outcome?_bind, outcome?_look, outcome?_located, outcome?_here,
    Option.bind_some, outcome?_pure, Cursor.outcome?_takeVarint hc, WireKind.payload?]
  cases hl : Varint.take? cursor.view with
  | none => rfl
  | some length =>
      rcases length with ⟨length, after⟩
      have hafter := hc.leave after
      have hview : (cursor.leave after).view = after :=
        hc.view_leave (Varint.take?_cuts.divides hl)
      simp only [Option.map_some, Option.bind_some, outcome?_openWindow hafter, hview, takeExactly?]
      by_cases hw : Varint.value length ≤ after.length
      · simp only [if_pos hw, Option.bind_some, Option.map_some]
        have hcut : after = after.take (Varint.value length) ++ after.drop (Varint.value length) :=
          (List.take_append_drop _ _).symm
        have hwidth : (after.take (Varint.value length)).length = Varint.value length := by
          rw [List.length_take, Nat.min_eq_left hw]
        have hinside : { cursor.leave after with
            windows := ((cursor.leave after).offset + Varint.value length)
              :: (cursor.leave after).windows }
            = within (cursor.leave after) (after.take (Varint.value length)) := by
          rw [within, hwidth]
        have hb := bounded_within hafter (hview.trans hcut)
        rw [hinside, h _ hb, view_within hafter (hview.trans hcut)]
        cases read? (after.take (Varint.value length)) with
        | none => rfl
        | some value =>
            simp only [Option.map_some, Option.bind_some,
              outcome?_closeWindow hafter (hview.trans hcut), Cursor.leave_leave]
      · simp only [if_neg hw, Option.bind_none, Option.map_none]

section Loop

variable {first? : Bytes → Option (β × Bytes)} {bytesOf : β → Bytes} {step : α → Decoder α}
  {after? : α → β → Option α} {Held : α → Prop}

/-- A step that takes one token off and keeps an invariant, repeated, takes all of them; by
induction on the steps that are allowed, which are no fewer than the bytes that are left.
-/
theorem outcome?_repeatFor (cuts : CutsFront first? bytesOf)
    (steps : ∀ value, Held value → (step value).Takes first? (after? value))
    (keeps
      : ∀ value token next,
          Held value
          → first? (bytesOf token) = some (token, [])
          → after? value token = some next
          → Held next)
    (fuel : Nat) {value : α} (hv : Held value) {cursor : Cursor} (hc : cursor.Bounded)
    (hf : cursor.view.length ≤ fuel)
    : outcome? (repeatFor step fuel value) cursor
      = (cutAll? first? cursor.view).bind (fun tokens =>
          (tokens.foldlM after? value).map (fun last => (last, cursor.leave []))) := by
  have stop {value : α} {cursor : Cursor} (hc : cursor.Bounded) (he : cursor.view = [])
      : some (value, cursor)
        = (cutAll? first? cursor.view).bind (fun tokens =>
            (tokens.foldlM after? value).map (fun last => (last, cursor.leave []))) := by
    have hleave : cursor.leave [] = cursor := by
      rw [← he]
      exact hc.leave_view
    simp [he, hleave]
  induction fuel generalizing value cursor with
  | zero =>
      have he : cursor.view = [] := List.eq_nil_of_length_eq_zero (Nat.le_zero.mp hf)
      simp only [repeatFor, outcome?_pure]
      exact stop hc he
  | succ fuel ih =>
      simp only [repeatFor, outcome?_bind, outcome?_look, Option.bind_some, hc.remaining_eq]
      by_cases he : cursor.view = []
      · rw [if_pos (by rw [he]; rfl), outcome?_pure]
        exact stop hc he
      · rw [if_neg (by simpa using he), outcome?_bind, steps value hv cursor hc]
        cases hcut : first? cursor.view with
        | none => simp only [Option.bind_none, CutsFront.cutAll?_of_none he hcut]
        | some cut =>
            rcases cut with ⟨token, rest⟩
            have hview : (cursor.leave rest).view = rest := hc.view_leave (cuts.divides hcut)
            have hlt := cuts.rest_length_lt hcut
            simp only [cuts.cutAll?_of_some hcut, Option.bind_some]
            -- A refused step ends both; any other leaves the rest to the steps after it.
            cases hn : after? value token with
            | none => cases cutAll? first? rest <;> simp [hn]
            | some next =>
                have hnext := keeps value token next hv (cuts.alone hcut) hn
                simp only [Option.map_some, Option.bind_some]
                rw [ih hnext (hc.leave rest) (by rw [hview]; omega), hview]
                cases cutAll? first? rest <;> simp [hn]

/-- A step that takes one token off and keeps an invariant, repeated to the end, uses up what may be
read.
-/
theorem toEnd_usesUp (cuts : CutsFront first? bytesOf)
    (steps : ∀ value, Held value → (step value).Takes first? (after? value))
    (keeps
      : ∀ value token next,
          Held value
          → first? (bytesOf token) = some (token, [])
          → after? value token = some next
          → Held next)
    {value : α} (hv : Held value)
    : (toEnd step value).UsesUp (fun bytes =>
        (cutAll? first? bytes).bind (fun tokens => tokens.foldlM after? value)) := by
  intro cursor hc
  simp only [toEnd, outcome?_bind, outcome?_look, Option.bind_some]
  rw [outcome?_repeatFor cuts steps keeps _ hv hc (Nat.le_of_eq hc.remaining_eq.symm)]
  cases cutAll? first? cursor.view <;> rfl

end Loop

end Decoder

end TagWire
