/-
# Functions that unpack and keep something else

A function that handles a message unpacks its buffer and changes a state of its own.  A `Handler` is
such a function: a computation on the buffer together with that state.  `lift` has it call the data
storage service, `attempt` looks at the error code of a call.

`Handles type x bytes f` is the specification of a handler: where `bytes` come next, it reads them
and nothing else, and what it returns and keeps is the function `f` of what it had kept.  The rules
follow the way handlers are built: `Handles.lift_bind` for a call that unpacks and what comes after
it, `Handles.bind` for one handler after another.

`Packs` says the same of a handler that packs.  `Moves R x` is what holds in EVERY buffer, also
where the handler fails: what it keeps in the end is in the relation `R` with what it kept before.
-/
import Sensys.Opal.DssWire

namespace Sensys.Opal.Dss

open Failing List

/-! ## 1. Handlers -/

/-- A buffer, and what is kept besides. -/
structure Handling (τ : Type) where
  buffer : Buffer
  kept : τ
  deriving DecidableEq

/-- A computation on both. -/
abbrev Handler (τ : Type) := Failing Stop (Handling τ)

variable {τ α β : Type}

/-- A call that unpacks. -/
def lift (x : Dss α) : Handler τ α := fun s => ((x s.buffer).1, ⟨(x s.buffer).2, s.kept⟩)

/-- A change of what is kept. -/
def change (f : τ → τ) : Handler τ Unit := modify fun s => ⟨s.buffer, f s.kept⟩

/-- A call whose error code is looked at. -/
def attempt (x : Handler τ α) : Handler τ (Except Rc α) := fun s =>
  match x s with
  | (.ok a, s') => (.ok (.ok a), s')
  | (.error (.rc rc), s') => (.ok (.error rc), s')
  | (.error .undefined, s') => (.error .undefined, s')

variable {x : Handler τ α} {s s' : Handling τ} {a : α}

theorem lift_eq {x} {result : Except Stop α} {b} (h : x s.buffer = (result, b)) :
    lift x s = (result, ⟨b, s.kept⟩) := by
  unfold lift
  rw [h]

theorem attempt_ok (h : x s = (.ok a, s')) : attempt x s = (.ok (.ok a), s') := by
  unfold attempt
  rw [h]

theorem attempt_rc {rc} (h : x s = (.error (.rc rc), s')) :
    attempt x s = (.ok (.error rc), s') := by
  unfold attempt
  rw [h]

theorem attempt_eq_ok (h : attempt x s = (.ok (.ok a), s')) : x s = (.ok a, s') := by
  unfold attempt at h
  split at h
  · rename_i hx
    cases h
    exact hx
  · cases h
  · cases h

variable {k : α → Handler τ β}

/-- A call that unpacks the bytes that come next, and what is done then. -/
theorem lift_bind_eq {x} {bytes rest : List UInt8} (hx : Reads s.buffer.type x bytes a)
    (hwf : s.buffer.Wf) (hunread : s.buffer.unread = bytes ++ rest) :
    (lift x >>= k) s = k a ⟨s.buffer.advance bytes.length, s.kept⟩ :=
  bind_ok (lift_eq (hx s.buffer hwf rfl rest hunread))

/-! ## 2. What a handler reads and keeps -/

/-- **Where these bytes come next, the handler stands behind them; what it returns and keeps is a
function of what it had kept.** -/
def Handles (type : BufferType) (x : Handler τ α) (bytes : List UInt8) (f : τ → α × τ) : Prop :=
  ∀ s : Handling τ, s.buffer.Wf → s.buffer.type = type → ∀ rest, s.buffer.unread = bytes ++ rest →
    x s = (.ok (f s.kept).1, ⟨s.buffer.advance bytes.length, (f s.kept).2⟩)

section Rules

variable {type : BufferType} {s t : List UInt8}

variable {x : Handler τ α} {f : τ → α × τ}

theorem handles_nil
    (h : ∀ s, x s = (.ok (f s.kept).1, ⟨s.buffer, (f s.kept).2⟩)) : Handles type x [] f := by
  intro s _ _ _ _
  rw [h, length_nil, Buffer.advance_zero]

theorem Handles.bind {g : α → τ → β × τ} (hx : Handles type x s f)
    (hk : ∀ a, Handles type (k a) t (g a)) :
    Handles type (x >>= k) (s ++ t) fun kept => g (f kept).1 (f kept).2 := by
  intro h hwf htype rest hunread
  have hs : h.buffer.unread = s ++ (t ++ rest) := by rw [hunread, List.append_assoc]
  obtain ⟨hwf', hrest⟩ := hwf.past hs
  have hlast := hk (f h.kept).1 ⟨_, (f h.kept).2⟩ hwf' htype rest hrest
  rw [bind_ok (hx h hwf htype _ hs), length_append, ← Buffer.advance_advance]
  exact hlast

theorem handles_lift {x} {a : α} (hx : Reads type x s a) :
    Handles type (lift x : Handler τ α) s fun kept => (a, kept) :=
  fun h hwf htype rest hunread => lift_eq (hx h.buffer hwf htype rest hunread)

/-- A call that unpacks keeps everything. -/
theorem Handles.lift_bind {x a g} (hx : Reads type x s a) (hk : Handles type (k a) t g) :
    Handles type (lift x >>= k) (s ++ t) g := by
  intro h hwf htype rest hunread
  have hs : h.buffer.unread = s ++ (t ++ rest) := by rw [hunread, List.append_assoc]
  obtain ⟨hwf', hrest⟩ := hwf.past hs
  rw [lift_bind_eq (htype ▸ hx) hwf hs, length_append, ← Buffer.advance_advance]
  exact hk ⟨_, h.kept⟩ hwf' htype rest hrest

/-- The error code of a handler that reads is `OPAL_SUCCESS`. -/
theorem Handles.attempt (hx : Handles type x s f) :
    Handles type (attempt x) s fun kept => (.ok (f kept).1, (f kept).2) :=
  fun h hwf htype rest hunread => attempt_ok (hx h hwf htype rest hunread)

end Rules

/-! ## 3. What a handler packs and keeps -/

/-- **The handler packs these bytes**, unless there is no memory for them; what it returns and keeps
is a function of what it had kept. -/
def Packs (type : BufferType) (x : Handler τ α) (bytes : List UInt8) (f : τ → α × τ) : Prop :=
  ∀ s : Handling τ, s.buffer.Wf → s.buffer.type = type →
    (∃ allocated, x s = (.ok (f s.kept).1, ⟨s.buffer.extend bytes allocated, (f s.kept).2⟩) ∧
      (s.buffer.extend bytes allocated).Wf) ∨
    ∃ s', x s = (.error (.rc .errOutOfResource), s') ∧
      memoryLimit ≤ s.buffer.bytesUsed + bytes.length

section Packing

variable {type : BufferType} {s t : List UInt8}

theorem packs_nil {x} {f : τ → α × τ}
    (h : ∀ s, x s = (.ok (f s.kept).1, ⟨s.buffer, (f s.kept).2⟩)) : Packs type x [] f := by
  intro s hwf _
  have hsame : s.buffer.extend [] s.buffer.bytesAllocated = s.buffer := by simp [Buffer.extend]
  exact .inl ⟨s.buffer.bytesAllocated, by rw [hsame, h], by rwa [hsame]⟩

theorem packs_lift {w} (h : Writes type w s) :
    Packs type (lift w : Handler τ Unit) s fun kept => ((), kept) := by
  intro x hwf htype
  rcases h x.buffer hwf htype with ⟨n, hrun, hwf'⟩ | ⟨b, hrun, hlimit⟩
  · exact .inl ⟨n, lift_eq hrun, hwf'⟩
  · exact .inr ⟨⟨b, x.kept⟩, lift_eq hrun, hlimit⟩

theorem Packs.bind {x f} {g : α → τ → β × τ} (hx : Packs type x s f)
    (hk : ∀ a, Packs type (k a) t (g a)) :
    Packs type (x >>= k) (s ++ t) fun kept => g (f kept).1 (f kept).2 := by
  intro h hwf htype
  rcases hx h hwf htype with ⟨m, hrun, hwf'⟩ | ⟨s', hrun, hlimit⟩
  · rw [bind_ok hrun]
    rcases hk (f h.kept).1 ⟨h.buffer.extend s m, (f h.kept).2⟩ hwf' htype with
      ⟨n, hrun', hwf''⟩ | ⟨s', hrun', hlimit⟩
    · rw [Buffer.extend_extend] at hrun' hwf''
      exact .inl ⟨n, hrun', hwf''⟩
    · refine .inr ⟨s', hrun', ?_⟩
      simp only [Buffer.extend] at hlimit
      rw [length_append]
      omega
  · refine .inr ⟨s', bind_error hrun, ?_⟩
    rw [length_append]
    omega

end Packing

/-! ## 4. What a handler never does -/

/-- **What is kept moves along the relation**, however the handler ends. -/
def Moves (R : τ → τ → Prop) (x : Handler τ α) : Prop := ∀ s, R s.kept (x s).2.kept

section Moves

variable {R : τ → τ → Prop} [IsPreorder τ R]

theorem moves_pure (a : α) : Moves R (pure a : Handler τ α) := fun _ => refl _

theorem moves_lift (x : Dss α) : Moves R (lift x : Handler τ α) := fun _ => refl _

theorem Moves.bind {x} (hx : Moves R x) (hk : ∀ a, Moves R (k a)) : Moves R (x >>= k) := by
  intro s
  have hfirst := hx s
  rw [bind_apply]
  rcases hrun : x s with ⟨_ | a, s'⟩
  · rwa [hrun] at hfirst
  · rw [hrun] at hfirst
    exact trans_of R hfirst (hk a s')

omit [IsPreorder τ R] in
theorem Moves.attempt {x : Handler τ α} (hx : Moves R x) : Moves R (attempt x) := by
  intro s
  have hmoves := hx s
  unfold Dss.attempt
  rcases hrun : x s with ⟨(_ | _) | _, s'⟩ <;> rwa [hrun] at hmoves

theorem moves_forM {f} : ∀ {bs : List β}, (∀ b ∈ bs, Moves R (f b)) →
    Moves R (bs.forM f)
  | [], _ => moves_pure ()
  | b :: _, h => (h b mem_cons_self).bind fun _ =>
      moves_forM fun b' hb' => h b' (mem_cons_of_mem b hb')

end Moves

end Sensys.Opal.Dss
