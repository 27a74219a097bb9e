import HeapStore.Error

/-!
# How operations end

An operation on a state ends with an answer or with the cause of its failure, and in a state either way.
`Ends op s ok err` says that `op`, started in `s`, ends with an answer and a state that satisfy `ok` or
with a cause and a state that satisfy `err`; `Settles` says the same of operations that do not fail.

There is one rule for each way to build an operation. As they are equivalences, they serve both to show how
an operation ends and to use it, and two things known of one operation can be put together (`Ends.and`).
-/

namespace HeapStore

variable {σ α β : Type}

def Ends (op : ExceptT StorageError (StateM σ) α) (s : σ) (ok : α → σ → Prop)
    (err : StorageError → σ → Prop) : Prop :=
  match op.run.run s with
  | (.ok a, s') => ok a s'
  | (.error cause, s') => err cause s'

def Settles (op : StateM σ α) (s : σ) (post : α → σ → Prop) : Prop := post (op.run s).1 (op.run s).2

section

variable {op : ExceptT StorageError (StateM σ) α} {s : σ} {ok ok' : α → σ → Prop}
  {err err' : StorageError → σ → Prop}

/-! ### Steps -/

@[simp] theorem ends_pure (a : α) : Ends (pure a) s ok err ↔ ok a s := Iff.rfl

@[simp] theorem ends_throw (cause : StorageError) :
    Ends (throw cause : ExceptT StorageError (StateM σ) α) s ok err ↔ err cause s := Iff.rfl

@[simp] theorem ends_get {ok : σ → σ → Prop} :
    Ends (get : ExceptT StorageError (StateM σ) σ) s ok err ↔ ok s s := Iff.rfl

@[simp] theorem ends_set {ok : PUnit → σ → Prop} (s' : σ) :
    Ends (set s' : ExceptT StorageError (StateM σ) PUnit) s ok err ↔ ok ⟨⟩ s' := Iff.rfl

@[simp] theorem ends_modify {ok : PUnit → σ → Prop} (f : σ → σ) :
    Ends (modify f : ExceptT StorageError (StateM σ) PUnit) s ok err ↔ ok ⟨⟩ (f s) := Iff.rfl

theorem ends_liftExcept {x : Except StorageError α} :
    Ends (liftExcept x : ExceptT StorageError (StateM σ) α) s ok err ↔
      (∀ a, x = .ok a → ok a s) ∧ ∀ cause, x = .error cause → err cause s := by
  cases x with
  | ok a =>
    exact ⟨fun h => ⟨fun a' ha => Except.ok.inj ha ▸ h, by simp⟩, fun h => h.1 a rfl⟩
  | error cause =>
    exact ⟨fun h => ⟨by simp, fun cause' hc => Except.error.inj hc ▸ h⟩, fun h => h.2 cause rfl⟩

@[simp] theorem ends_bind {f : α → ExceptT StorageError (StateM σ) β} {ok : β → σ → Prop} :
    Ends (op >>= f) s ok err ↔ Ends op s (fun a s' => Ends (f a) s' ok err) err := by
  unfold Ends
  simp only [ExceptT.run_bind, StateT.run_bind]
  cases op.run.run s with | mk result s' =>
  cases result <;> rfl

@[simp] theorem ends_tryCatch {handler : StorageError → ExceptT StorageError (StateM σ) α} :
    Ends (tryCatch op handler) s ok err ↔ Ends op s ok fun cause s' => Ends (handler cause) s' ok err := by
  unfold Ends
  simp only [tryCatch, tryCatchThe, MonadExceptOf.tryCatch, ExceptT.tryCatch, ExceptT.run_mk,
    StateT.run_bind]
  have hrun : StateT.run op s = op.run.run s := rfl
  rw [hrun]
  cases op.run.run s with | mk result s' =>
  cases result <;> rfl

/-! ### Consequences -/

theorem Ends.mono (h : Ends op s ok err) (hok : ∀ a s', ok a s' → ok' a s')
    (herr : ∀ cause s', err cause s' → err' cause s') : Ends op s ok' err' := by
  unfold Ends at *
  split at h
  · exact hok _ _ h
  · exact herr _ _ h

theorem Ends.mono_ok (h : Ends op s ok fun _ _ => False) (hok : ∀ a s', ok a s' → ok' a s') :
    Ends op s ok' err' :=
  h.mono hok fun _ _ hfalse => hfalse.elim

theorem Ends.mono_error (h : Ends op s (fun _ _ => False) err)
    (herr : ∀ cause s', err cause s' → err' cause s') : Ends op s ok' err' :=
  h.mono (fun _ _ hfalse => hfalse.elim) herr

theorem Ends.and (h : Ends op s ok err) (h' : Ends op s ok' err') :
    Ends op s (fun a s' => ok a s' ∧ ok' a s') fun cause s' => err cause s' ∧ err' cause s' := by
  unfold Ends at *
  split at h
  · next heq => rw [heq] at h'; exact ⟨h, h'⟩
  · next heq => rw [heq] at h'; exact ⟨h, h'⟩

/-- An operation ends as its run says. -/
theorem Ends.self (op : ExceptT StorageError (StateM σ) α) (s : σ) :
    Ends op s (fun a s' => op.run.run s = (.ok a, s')) fun cause s' => op.run.run s = (.error cause, s') := by
  unfold Ends
  split
  · next heq => exact heq
  · next heq => exact heq

theorem Ends.run_eq {x : Except StorageError α × σ}
    (h : Ends op s (fun a s' => x = (.ok a, s')) fun cause s' => x = (.error cause, s')) : op.run.run s = x := by
  unfold Ends at h
  split at h
  · next heq => rw [heq, h]
  · next heq => rw [heq, h]

theorem Ends.result_eq {x : Except StorageError α}
    (h : Ends op s (fun a _ => x = .ok a) fun cause _ => x = .error cause) : (op.run.run s).1 = x := by
  unfold Ends at h
  split at h
  · next heq => rw [heq, h]
  · next heq => rw [heq, h]

theorem Ends.of_error {cause : StorageError} {P : StorageError → Prop} (h : Ends op s ok fun cause _ => P cause)
    (hcause : (op.run.run s).1 = .error cause) : P cause := by
  unfold Ends at h
  split at h
  · next heq =>
    rw [heq] at hcause
    simp at hcause
  · next heq =>
    rw [heq] at hcause
    exact Except.error.inj hcause ▸ h

theorem Ends.of_ok {a : α} {P : α → Prop} (h : Ends op s (fun a _ => P a) err) (hok : (op.run.run s).1 = .ok a) :
    P a := by
  unfold Ends at h
  split at h
  · next heq =>
    rw [heq] at hok
    exact Except.ok.inj hok ▸ h
  · next heq =>
    rw [heq] at hok
    simp at hok

/-- What holds of all ways in which an operation can end holds of its end. -/
theorem Ends.always {post : σ → Prop} (h : Ends op s (fun _ => post) fun _ => post) :
    post (op.run.run s).2 := by
  unfold Ends at h
  split at h
  · next heq => rw [heq]; exact h
  · next heq => rw [heq]; exact h

end

/-! ### Operations that do not fail -/

section

variable {s : σ}

@[simp] theorem settles_pure (a : α) {post : α → σ → Prop} :
    Settles (pure a) s post ↔ post a s := Iff.rfl

@[simp] theorem settles_get {post : σ → σ → Prop} : Settles (get : StateM σ σ) s post ↔ post s s := Iff.rfl

@[simp] theorem settles_bind {op : StateM σ α} {f : α → StateM σ β} {post : β → σ → Prop} :
    Settles (op >>= f) s post ↔ Settles op s fun a s' => Settles (f a) s' post := Iff.rfl

@[simp] theorem settles_run {op : ExceptT StorageError (StateM σ) α}
    {post : Except StorageError α → σ → Prop} :
    Settles op.run s post ↔ Ends op s (fun a => post (.ok a)) fun cause => post (.error cause) := by
  unfold Settles Ends
  cases op.run.run s with | mk result s' =>
  cases result <;> rfl

theorem Settles.mono {op : StateM σ α} {post post' : α → σ → Prop} (h : Settles op s post)
    (hpost : ∀ a s', post a s' → post' a s') : Settles op s post' := hpost _ _ h

theorem Settles.and {op : StateM σ α} {post post' : α → σ → Prop} (h : Settles op s post)
    (h' : Settles op s post') : Settles op s fun a s' => post a s' ∧ post' a s' := ⟨h, h'⟩

end

end HeapStore
