import Mathlib.Data.List.Forall2
import TagStamp.Workspace.Disk

namespace TagStamp

/-- Whether a failure is that of one operation, not one that stands for a part of a run. -/
def Failure.isDirect : Failure → Bool
  | .disk _ | .nullByte | .linkLoop _ | .notBelow _ _ | .undecodable _ | .beyond _ | .notPath _ => true
  | _ => false

namespace Action

variable {α β : Type}

/-- From the given workspace the action comes to a result and a workspace with `done`, or to a failure and
a workspace with `failed`. -/
def Ends (a : Action α) (w : Workspace) (done : α → Workspace → Prop)
    (failed : Failure → Workspace → Prop) : Prop :=
  match a.run w with
  | .ok x w' => done x w'
  | .error failure w' => failed failure w'

variable {a : Action α} {w w' : Workspace} {done : α → Workspace → Prop}
  {failed : Failure → Workspace → Prop}

theorem ends_of_ok {x : α} (hrun : a.run w = .ok x w') : a.Ends w done failed ↔ done x w' := by
  rw [Ends, hrun]

theorem ends_of_error {failure : Failure} (hrun : a.run w = .error failure w') :
    a.Ends w done failed ↔ failed failure w' := by
  rw [Ends, hrun]

theorem Ends.ok {x : α} (h : a.Ends w done failed) (hrun : a.run w = .ok x w') : done x w' :=
  (ends_of_ok hrun).1 h

theorem Ends.error {failure : Failure} (h : a.Ends w done failed) (hrun : a.run w = .error failure w') :
    failed failure w' :=
  (ends_of_error hrun).1 h

instance [∀ x w', Decidable (done x w')] [∀ failure w', Decidable (failed failure w')] :
    Decidable (a.Ends w done failed) :=
  match hrun : a.run w with
  | .ok x w' => decidable_of_iff (done x w') (ends_of_ok hrun).symm
  | .error failure w' => decidable_of_iff (failed failure w') (ends_of_error hrun).symm

/-- An action that cannot fail returns something. -/
theorem Ends.exists_ok (h : a.Ends w done fun _ _ => False) : ∃ x w', a.run w = .ok x w' ∧ done x w' := by
  cases hrun : a.run w with
  | ok x w' => exact ⟨x, w', rfl, h.ok hrun⟩
  | error failure w' => exact (h.error hrun).elim

/-- An action that cannot return anything fails. -/
theorem Ends.exists_error (h : a.Ends w (fun _ _ => False) failed) :
    ∃ failure w', a.run w = .error failure w' ∧ failed failure w' := by
  cases hrun : a.run w with
  | ok x w' => exact (h.ok hrun).elim
  | error failure w' => exact ⟨failure, w', rfl, h.error hrun⟩

theorem run_eq_ok_iff {x : α} :
    a.run w = .ok x w' ↔ a.Ends w (fun y w₁ => y = x ∧ w₁ = w') fun _ _ => False := by
  unfold Ends
  cases a.run w <;> simp

/-- A statement about a run, with the run at hand. -/
theorem Ends.imp_run {done' : α → Workspace → Prop} {failed' : Failure → Workspace → Prop}
    (h : a.Ends w done failed) (hdone : ∀ x w', a.run w = .ok x w' → done x w' → done' x w')
    (hfailed : ∀ failure w', a.run w = .error failure w' → failed failure w' → failed' failure w') :
    a.Ends w done' failed' := by
  unfold Ends at h ⊢
  cases hrun : a.run w with
  | ok x w' => exact hdone x w' hrun (by rwa [hrun] at h)
  | error failure w' => exact hfailed failure w' hrun (by rwa [hrun] at h)

theorem Ends.imp {done' : α → Workspace → Prop} {failed' : Failure → Workspace → Prop}
    (h : a.Ends w done failed) (hdone : ∀ x w', done x w' → done' x w')
    (hfailed : ∀ failure w', failed failure w' → failed' failure w') : a.Ends w done' failed' :=
  h.imp_run (fun x w' _ => hdone x w') fun failure w' _ => hfailed failure w'

/-- Two statements about one run. -/
theorem Ends.and {done' : α → Workspace → Prop} {failed' : Failure → Workspace → Prop}
    (h : a.Ends w done failed) (h' : a.Ends w done' failed') :
    a.Ends w (fun x w' => done x w' ∧ done' x w') fun failure w' => failed failure w' ∧ failed' failure w' := by
  unfold Ends at h h' ⊢
  cases hrun : a.run w with
  | ok x w' => exact ⟨by rwa [hrun] at h, by rwa [hrun] at h'⟩
  | error failure w' => exact ⟨by rwa [hrun] at h, by rwa [hrun] at h'⟩

theorem Ends.of_forall (hdone : ∀ x w', done x w') (hfailed : ∀ failure w', failed failure w') :
    a.Ends w done failed := by
  unfold Ends
  cases a.run w with
  | ok x w' => exact hdone x w'
  | error failure w' => exact hfailed failure w'

@[simp]
theorem ends_pure {x : α} : (pure x : Action α).Ends w done failed ↔ done x w := Iff.rfl

@[simp]
theorem ends_throw {failure : Failure} : (throw failure : Action α).Ends w done failed ↔ failed failure w :=
  Iff.rfl

@[simp]
theorem ends_bind {f : α → Action β} {done : β → Workspace → Prop} :
    (a >>= f).Ends w done failed ↔ a.Ends w (fun x w' => (f x).Ends w' done failed) failed := by
  have hrun : (a >>= f).run w = match a.run w with
      | .ok x w' => (f x).run w'
      | .error failure w' => .error failure w' := by
    simp only [bind, EStateM.bind, EStateM.run]
    cases a w <;> rfl
  unfold Ends
  rw [hrun]
  cases a.run w <;> rfl

@[simp]
theorem ends_tryCatch {handler : Failure → Action α} :
    (tryCatch a handler).Ends w done failed ↔
      a.Ends w done fun failure w' => (handler failure).Ends w' done failed := by
  have hrun : (tryCatch a handler).run w = match a.run w with
      | .ok x w' => .ok x w'
      | .error failure w' => (handler failure).run w' := by
    simp only [tryCatch, tryCatchThe, MonadExceptOf.tryCatch, EStateM.tryCatch, EStateM.run]
    cases a w <;> rfl
  unfold Ends
  rw [hrun]
  cases a.run w <;> rfl

@[simp]
theorem ends_get {done : Workspace → Workspace → Prop} :
    (get : Action Workspace).Ends w done failed ↔ done w w := Iff.rfl

@[simp]
theorem ends_say {output : Output} {done : Unit → Workspace → Prop} :
    (say output).Ends w done failed ↔ done () { w with transcript := w.transcript ++ [output] } := Iff.rfl

@[simp]
theorem ends_log {level : Log.Level} {message : CodeString} {done : Unit → Workspace → Prop} :
    (log level message).Ends w done failed ↔
      done () { w with transcript := w.transcript ++ [.log ⟨level, message⟩] } := Iff.rfl

@[simp]
theorem ends_ofExcept {result : Except Failure α} :
    (ofExcept result).Ends w done failed ↔
      match result with
      | .ok x => done x w
      | .error failure => failed failure w := by
  cases result <;> rfl

@[simp]
theorem ends_look {aim : Aim} {path : String} {done : Walk → Workspace → Prop} :
    (look aim path).Ends w done failed ↔ done (w.tree.locate w.directory aim path) w := Iff.rfl

@[simp]
theorem ends_checkPath {path : String} {done : Unit → Workspace → Prop} :
    (checkPath path).Ends w done failed ↔
      if path.toList.contains '\x00' then failed .nullByte w else done () w := by
  unfold checkPath
  split <;> rfl

@[simp]
theorem ends_workingDirectory {done : Location → Workspace → Prop} :
    workingDirectory.Ends w done failed ↔
      if w.directory.isLost then failed (.disk .unplaced) w else done w.directory.place w := by
  simp only [workingDirectory, ends_bind, ends_get]
  split <;> rfl

/-- A disk error is handled, any other failure passes. -/
@[simp]
theorem ends_onDisk {handler : DiskError → Action α} :
    (onDisk a handler).Ends w done failed ↔
      a.Ends w done fun failure w' =>
        match failure with
        | .disk error => (handler error).Ends w' done failed
        | other => failed other w' := by
  rw [onDisk, ends_tryCatch]
  constructor
  · intro h
    refine h.imp (fun _ _ h => h) fun failure w' h => ?_
    cases failure <;> exact h
  · intro h
    refine h.imp (fun _ _ h => h) fun failure w' h => ?_
    cases failure <;> exact h

/-- A disk error that is raised again as another failure. -/
theorem Ends.rethrow {kept : Workspace → Prop} {convert : DiskError → Failure}
    (h : a.Ends w done fun failure w' => failure.isDirect ∧ kept w') :
    (onDisk a fun error => throw (convert error)).Ends w done
      fun failure w' => (failure.isDirect ∨ ∃ error, failure = convert error) ∧ kept w' := by
  rw [ends_onDisk]
  refine h.imp (fun _ _ h => h) fun failure w' ⟨hdirect, hw'⟩ => ?_
  cases failure with
  | disk error => exact ⟨.inr ⟨error, rfl⟩, hw'⟩
  | _ => exact ⟨.inl hdirect, hw'⟩

theorem ends_forM_cons {x : β} {rest : List β} {f : β → Action Unit} {done : Unit → Workspace → Prop} :
    ((x :: rest).forM f).Ends w done failed ↔
      (f x).Ends w (fun _ w' => (rest.forM f).Ends w' done failed) failed :=
  ends_bind (a := f x) (f := fun _ => rest.forM f)

theorem ends_mapM_cons {x : β} {rest : List β} {f : β → Action α} {done : List α → Workspace → Prop} :
    ((x :: rest).mapM f).Ends w done failed ↔
      (f x).Ends w (fun y w' => (rest.mapM f).Ends w' (fun ys => done (y :: ys)) failed) failed := by
  simp only [List.mapM_cons, ends_bind, ends_pure]

/-- A loop that collects one result for each item. -/
theorem ends_mapM {xs : List β} {f : β → Action α} {kept : Workspace → Prop} {result : β → α → Prop}
    (hround : ∀ x ∈ xs, ∀ w, kept w → (f x).Ends w (fun y w' => result x y ∧ kept w') failed) (hw : kept w) :
    (xs.mapM f).Ends w (fun ys w' => List.Forall₂ result xs ys ∧ kept w') failed := by
  induction xs generalizing w with
  | nil => exact ⟨.nil, hw⟩
  | cons x rest ih =>
    rw [List.forall_mem_cons] at hround
    rw [ends_mapM_cons]
    refine (hround.1 w hw).imp (fun y w₁ ⟨hy, hw₁⟩ => ?_) fun _ _ h => h
    exact (ih hround.2 hw₁).imp (fun _ _ ⟨hys, hw'⟩ => ⟨.cons hy hys, hw'⟩) fun _ _ h => h

/-- A loop over an action that changes nothing. -/
theorem ends_mapM_same {xs : List β} {f : β → Action α} {g : β → α}
    (hround : ∀ x ∈ xs, (f x).Ends w (fun y w' => y = g x ∧ w' = w) failed) :
    (xs.mapM f).Ends w (fun ys w' => ys = xs.map g ∧ w' = w) failed := by
  induction xs with
  | nil => exact ⟨rfl, rfl⟩
  | cons x rest ih =>
    rw [List.forall_mem_cons] at hround
    rw [ends_mapM_cons]
    refine hround.1.imp ?_ fun _ _ h => h
    rintro _ _ ⟨rfl, rfl⟩
    refine (ih hround.2).imp ?_ fun _ _ h => h
    rintro _ _ ⟨rfl, rfl⟩
    exact ⟨rfl, rfl⟩

/-- What every round of a loop keeps, the loop keeps. -/
theorem ends_forM {xs : List β} {f : β → Action Unit} {kept : Workspace → Prop}
    {failed : Failure → Workspace → Prop}
    (hround : ∀ x ∈ xs, ∀ w, kept w → (f x).Ends w (fun _ w' => kept w') failed) (hw : kept w) :
    (xs.forM f).Ends w (fun _ w' => kept w') failed := by
  induction xs generalizing w with
  | nil => exact hw
  | cons x rest ih =>
    rw [List.forall_mem_cons] at hround
    rw [ends_forM_cons]
    exact (hround.1 w hw).imp (fun _ w' hw' => ih hround.2 hw') fun _ _ h => h

/-- A loop whose rounds each establish a fact about their item, and keep what is established for others. -/
theorem ends_forM_facts {all xs : List β} {f : β → Action Unit} {kept : Workspace → Prop}
    {fact : β → Workspace → Prop} {failed : Failure → Workspace → Prop}
    (hround : ∀ x ∈ all, ∀ w, kept w →
      (f x).Ends w (fun _ w' => kept w' ∧ fact x w' ∧ ∀ y ∈ all, fact y w → fact y w') failed)
    (hsub : xs ⊆ all) (hw : kept w) :
    (xs.forM f).Ends w
      (fun _ w' => kept w' ∧ (∀ x ∈ xs, fact x w') ∧ ∀ y ∈ all, fact y w → fact y w') failed := by
  induction xs generalizing w with
  | nil => exact ⟨hw, by simp, fun _ _ h => h⟩
  | cons x rest ih =>
    rw [List.cons_subset] at hsub
    rw [ends_forM_cons]
    refine (hround x hsub.1 w hw).imp (fun _ w₁ ⟨hw₁, hx, hstep⟩ => ?_) fun _ _ h => h
    refine (ih hsub.2 hw₁).imp (fun _ w₂ ⟨hw₂, hrest, hsteps⟩ => ⟨hw₂, ?_, ?_⟩) fun _ _ h => h
    · exact List.forall_mem_cons.2 ⟨hsteps x hsub.1 hx, hrest⟩
    · exact fun y hy h => hsteps y hy (hstep y hy h)

end Action

end TagStamp
