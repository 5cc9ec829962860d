/-
  ImportBinding — commands on a session.

  A step of a command takes a session to what comes of it and the session after it.

  * `Session.perform` does a step on a session, and `perform_bind` does two in a row;
    `Session.execute` does a whole command;
  * `Inert` are the steps that leave every session as it is, and `Adding` the accesses that
    add directories at most.
-/
import ImportBinding.Command.Run
import ImportBinding.Proofs.Files.Workspace

namespace ImportBinding

open Command (Access Failure)

/-- A step of a command on a session. -/
abbrev Step (α : Type) : Type :=
  ExceptT Failure (StateM Session) α

/-- What comes of a step on a session, and the session after it. -/
def Session.perform {α : Type} (s : Session) (x : Step α) : Except Failure α × Session :=
  x.run.run s

/-- What comes of a command on a session, and the session after it. -/
def Session.execute (s : Session) (c : Command) : Except Failure Unit × Session :=
  s.perform c.run

namespace Session

variable {α β : Type} {s s' : Session}

/-! ## Steps in a row -/

@[simp] theorem perform_pure (s : Session) (a : α) : s.perform (pure a) = (.ok a, s) := rfl

/-- A step that needs no session. -/
@[simp] theorem perform_liftM (s : Session) (x : Except Failure α) :
    s.perform (liftM x : Step α) = (x, s) := rfl

theorem perform_bind (s : Session) (x : Step α) (f : α → Step β) : s.perform (x >>= f) =
    match s.perform x with
    | (.ok a, s') => s'.perform (f a)
    | (.error e, s') => (.error e, s') := by
  have hx : StateT.run x.run s = s.perform x := rfl
  rw [perform, ExceptT.run_bind, StateT.run_bind, hx]
  rcases s.perform x with ⟨e | a, s'⟩
  · rfl
  · rfl

theorem perform_bind_eq_ok_iff {x : Step α} {f : α → Step β} {b : β} :
    s.perform (x >>= f) = (.ok b, s') ↔
      ∃ a s₁, s.perform x = (.ok a, s₁) ∧ s₁.perform (f a) = (.ok b, s') := by
  rw [perform_bind]
  rcases s.perform x with ⟨e | a, s₁⟩
  · simp
  · simp only [Prod.mk.injEq, Except.ok.injEq]
    exact ⟨fun h => ⟨a, s₁, ⟨rfl, rfl⟩, h⟩, fun ⟨_, _, ⟨ha, hs⟩, h⟩ => ha ▸ hs ▸ h⟩

/-- The entry of a manifest that fails is named. -/
theorem perform_adapt (s : Session) (g : Failure → Failure) (x : Step α) :
    s.perform (ExceptT.adapt g x) = ((s.perform x).1.mapError g, (s.perform x).2) := rfl

/-! ## Accesses -/

/-- A step that cannot fail. -/
theorem perform_lift (s : Session) (act : StateM Session α) :
    s.perform (liftM act : Step α) = (.ok (act.run s).1, (act.run s).2) := rfl

theorem perform_access (s : Session) (what : Access) (path : String)
    (act : StateM Session (Except FileFault α)) : s.perform (Command.access what path act) =
      ((act.run s).1.mapError (.file what path), (act.run s).2) := by
  rw [Command.access, perform_bind, perform_lift]
  rcases act.run s with ⟨fault | a, s'⟩
  · rfl
  · rfl

theorem perform_read (s : Session) (what : Access) (path : String) :
    s.perform (Command.access what path (Files.read path)) =
      ((s.workspace.read path).mapError (.file what path), s) :=
  perform_access s what path (Files.read path)

theorem perform_write (s : Session) (what : Access) (path : String) (bytes : List UInt8) :
    s.perform (Command.access what path (Files.write path bytes)) =
      ((s.update (s.workspace.write path bytes)).1.mapError (.file what path),
        (s.update (s.workspace.write path bytes)).2) :=
  perform_access s what path (Files.write path bytes)

theorem perform_print (s : Session) (text : String) :
    s.perform (liftM (Files.print text : StateM Session Unit) : Step Unit) =
      (.ok (), { s with output := s.output ++ text }) := rfl

end Session

/-! ## Steps that change nothing -/

/-- A step that leaves every session as it is. -/
def Inert {α : Type} (x : Step α) : Prop :=
  ∀ s : Session, (s.perform x).2 = s

namespace Inert

variable {α β : Type}

theorem pure (a : α) : Inert (Pure.pure a) :=
  fun _ => rfl

theorem throw (e : Failure) : Inert (MonadExcept.throw e : Step α) :=
  fun _ => rfl

theorem liftM (x : Except Failure α) : Inert (MonadLiftT.monadLift x : Step α) :=
  fun _ => rfl

theorem bind {x : Step α} {f : α → Step β} (hx : Inert x) (hf : ∀ a, Inert (f a)) :
    Inert (x >>= f) := by
  intro s
  rw [Session.perform_bind]
  have := hx s
  rcases h : s.perform x with ⟨e | a, s'⟩
  · rwa [h] at this
  · rw [h] at this
    obtain rfl : s' = s := this
    exact hf a s'

/-- When a step fails that starts with an inert one, that one failed, or the rest did. -/
theorem cases_error {x : Step α} {f : α → Step β} (hx : Inert x) {s s' : Session} {e : Failure}
    (h : s.perform (x >>= f) = (.error e, s')) :
    s' = s ∨ ∃ a, s.perform (f a) = (.error e, s') := by
  rw [Session.perform_bind] at h
  have hs := hx s
  rcases hp : s.perform x with ⟨_ | a, s₁⟩
  · rw [hp] at h hs
    cases h
    exact Or.inl hs
  · rw [hp] at h hs
    obtain rfl : s₁ = s := hs
    exact Or.inr ⟨a, h⟩

theorem adapt {x : Step α} (hx : Inert x) (g : Failure → Failure) : Inert (ExceptT.adapt g x) :=
  fun s => hx s

theorem read (what : Access) (path : String) :
    Inert (Command.access what path (Files.read path)) :=
  fun s => by rw [Session.perform_read]

end Inert

/-! ## Accesses that add directories -/

namespace Workspace

/-- A workspace with the same files as another one, and at least its directories. -/
def Adds (w w' : Workspace) : Prop :=
  w.Extends w' ∧ w'.top.file? = w.top.file?

theorem Adds.refl (w : Workspace) : w.Adds w :=
  ⟨.refl w, rfl⟩

theorem Adds.trans {w w' w'' : Workspace} (h : w.Adds w') (h' : w'.Adds w'') : w.Adds w'' :=
  ⟨h.1.trans h'.1, h'.2.trans h.2⟩

end Workspace

/-- An access that adds directories at most. -/
def Adding {α : Type} (x : StateM Session α) : Prop :=
  ∀ s : Session, s.workspace.Adds (x.run s).2.workspace

namespace Adding

variable {α β : Type}

theorem pure (a : α) : Adding (Pure.pure a) :=
  fun s => .refl s.workspace

theorem bind {x : StateM Session α} {f : α → StateM Session β} (hx : Adding x)
    (hf : ∀ a, Adding (f a)) : Adding (x >>= f) :=
  fun s => (hx s).trans (hf _ _)

theorem read (path : String) : Adding (Files.read path) :=
  fun s => .refl s.workspace

theorem makeDirectory (path : String) : Adding (Files.makeDirectory path) := by
  intro s
  change s.workspace.Adds (s.update (s.workspace.makeDirectory path)).2.workspace
  cases h : s.workspace.makeDirectory path with
  | error fault => exact .refl s.workspace
  | ok w => exact Workspace.makeDirectory_spec h

theorem orPresent (path : String) (result : Except FileFault Unit) :
    Adding (Files.orPresent path result) := by
  unfold Files.orPresent Files.isDirectory
  split
  · exact pure _
  · refine ((read path).bind fun result => ?_).bind fun _ => pure _
    split
    · exact pure _
    · exact pure _

theorem makeDirectoriesWith : (fuel : Nat) → (path : String) →
    Adding (Files.makeDirectoriesWith fuel path)
  | 0, _ => pure _
  | fuel + 1, path => by
    rw [Files.makeDirectoriesWith]
    split
    · exact pure _
    · refine (makeDirectory path).bind fun result => ?_
      split
      · exact pure _
      · refine (makeDirectoriesWith fuel _).bind fun result => ?_
        split
        · exact (makeDirectory path).bind (orPresent path)
        · exact pure _
      · exact orPresent path _

end Adding
end ImportBinding
