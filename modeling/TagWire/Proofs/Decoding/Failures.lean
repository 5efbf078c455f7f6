import TagWire.Proofs.Cursor.Refusals
import TagWire.Proofs.Decoding.Windows

/-!
How steps fail. What is known of the errors of some steps is known of those of a larger one: of
steps in a row, of a step that is repeated, and of a step in a window.
-/

namespace TagWire

namespace Decoder

variable {α β : Type} {good : DecodeError → Prop} {cursor : Cursor}

/-- Where a step fails, it does so with an error of some sort. -/
def FailsOnly (step : Decoder α) (good : DecodeError → Prop) (cursor : Cursor) : Prop :=
  ∀ error, step cursor = .error error → good error

theorem failsOnly_pure (value : α) : FailsOnly (pure value) good cursor :=
  fun _ h => by cases h

theorem failsOnly_throw {error : DecodeError} (h : good error)
    : FailsOnly (throw error : Decoder α) good cursor := by
  intro other he
  obtain rfl : error = other := Except.error.inj he
  exact h

/-- Of two steps in a row, the first may fail, or the second where the first leaves the cursor. -/
theorem FailsOnly.bind {step : Decoder α} {next : α → Decoder β} (h : step.FailsOnly good cursor)
    (hn
      : ∀ value moved,
          step.outcome? cursor = some (value, moved) → (next value).FailsOnly good moved)
    : (step >>= next).FailsOnly good cursor := by
  intro error he
  simp only [Bind.bind, StateT.bind] at he
  cases hs : step cursor with
  | error cause =>
      rw [hs] at he
      obtain rfl : cause = error := Except.error.inj he
      exact h cause hs
  | ok out =>
      rw [hs] at he
      exact hn out.1 out.2 (by rw [outcome?, hs]; rfl) error he

theorem failsOnly_look_bind {view : Cursor → α} {next : α → Decoder β}
    (h : (next (view cursor)).FailsOnly good cursor)
    : (look view >>= next).FailsOnly good cursor :=
  h

theorem failsOnly_located {read : Read α} {offset : Nat}
    (h : ∀ cause left, read cursor = .error cause left → good (.malformed offset cause))
    : (located offset read).FailsOnly good cursor := by
  intro error he
  rw [located] at he
  cases hr : read cursor with
  | ok value moved => simp [hr] at he
  | error cause left =>
      rw [hr] at he
      obtain rfl : .malformed offset cause = error := Except.error.inj he
      exact h cause left hr

theorem failsOnly_here {read : Read α}
    (h : ∀ cause left, read cursor = .error cause left → good (.malformed cursor.offset cause))
    : (here read).FailsOnly good cursor :=
  failsOnly_look_bind (failsOnly_located h)

section Loop

variable {step : α → Decoder α} {Held : α → Cursor → Prop}
  (fails : ∀ value cursor, Held value cursor → (step value).FailsOnly good cursor)
  (keeps
    : ∀ value cursor next moved,
        Held value cursor
        → (step value).outcome? cursor = some (next, moved)
        → Held next moved)

include fails keeps

/-- A step that fails in some way only where an invariant holds, and keeps the invariant otherwise,
fails in that way only when it is repeated; by induction on the steps that are allowed.
-/
theorem failsOnly_repeatFor (fuel : Nat) {value : α} (hv : Held value cursor)
    : (repeatFor step fuel value).FailsOnly good cursor := by
  induction fuel generalizing value cursor with
  | zero => exact failsOnly_pure value
  | succ fuel ih =>
      apply failsOnly_look_bind
      split
      · exact failsOnly_pure value
      · exact (fails value cursor hv).bind (fun next moved hn =>
          ih (keeps value cursor next moved hv hn))

theorem failsOnly_toEnd {value : α} (hv : Held value cursor)
    : (toEnd step value).FailsOnly good cursor :=
  failsOnly_look_bind (failsOnly_repeatFor fails keeps cursor.remaining hv)

end Loop

/-- A window that opens behind a length has the content of a delimited payload in it. -/
theorem openWindow_split (hb : cursor.Bounded) {length after : Bytes} {opened : Cursor}
    (hl : Varint.take? cursor.view = some (length, after))
    (h
      : Read.outcome? (Cursor.openWindow (Varint.value length)) (cursor.leave after)
        = some ((), opened))
    : ∃ content rest,
        after = content ++ rest
        ∧ WireKind.lengthDelimited.payload? cursor.view = some (⟨length, content⟩, rest)
        ∧ opened = within (cursor.leave after) content := by
  have hview : (cursor.leave after).view = after :=
    hb.view_leave (Varint.take?_cuts.divides hl)
  rw [outcome?_openWindow (hb.leave after), hview] at h
  split at h
  · next fits =>
      have hwidth : (after.take (Varint.value length)).length = Varint.value length := by
        rw [List.length_take, Nat.min_eq_left fits]
      have hsplit : after.take (Varint.value length) ++ after.drop (Varint.value length) = after :=
        List.take_append_drop _ _
      refine ⟨after.take (Varint.value length), after.drop (Varint.value length), hsplit.symm, ?_,
        ?_⟩
      · exact delimited_payload?_eq_some_iff.mpr ⟨by rw [hsplit, hl], hwidth⟩
      · rw [within, hwidth]
        exact (Prod.mk.inj (Option.some.inj h)).2.symm
  · cases h

/-- A step in a window fails as the step does inside, or because there is no such window. To close
the window does not fail, because the step uses it up.
-/
theorem failsOnly_inWindow {body : Decoder α} {read? : Bytes → Option α} (uses : body.UsesUp read?)
    (hb : cursor.Bounded)
    (refused
      : ∀ cause, cursor.Refuses .lengthDelimited cause → good (.malformed cursor.offset cause))
    (inside
      : ∀ payload rest,
          WireKind.lengthDelimited.payload? cursor.view = some (payload, rest)
          → body.FailsOnly good
              (within (cursor.leave (payload.content ++ rest)) payload.content))
    : (inWindow body).FailsOnly good cursor := by
  apply failsOnly_look_bind
  refine .bind (failsOnly_located (fun cause left he => ?_)) (fun width moved hwidth => ?_)
  · exact refused cause (.length (Cursor.takeVarint_refused hb he))
  rw [outcome?_located] at hwidth
  obtain ⟨length, after, hl, rfl, rfl⟩ := Cursor.takeVarint_split hb hwidth
  refine .bind (failsOnly_located (fun cause left he => ?_)) (fun _ opened hopened => ?_)
  · exact refused cause (Cursor.openWindow_refused hb hl he)
  rw [outcome?_located] at hopened
  obtain ⟨content, rest, rfl, hp, rfl⟩ := openWindow_split hb hl hopened
  have hview : (cursor.leave (content ++ rest)).view = content ++ rest :=
    hb.view_leave (Varint.take?_cuts.divides hl)
  refine (inside ⟨length, content⟩ rest hp).bind (fun value left hleft => ?_)
  rw [uses _ (bounded_within (hb.leave _) hview)] at hleft
  obtain ⟨_, _, he⟩ := Option.map_eq_some_iff.mp hleft
  obtain rfl := (Prod.mk.inj he).2
  refine .bind (failsOnly_here (fun cause left hfail => ?_)) (fun _ _ _ => failsOnly_pure value)
  have hclose := outcome?_closeWindow (hb.leave _) hview
  rw [Read.outcome?, hfail] at hclose
  cases hclose

end Decoder

end TagWire
