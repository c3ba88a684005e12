import Wakterm.Blob.Logic.Leases

/-!
# Blob leases keep data alive

`lease_by_content` takes the lock that it has, if the content is there, and waits for ever.
-/

namespace Wakterm.Blob.Theorems.BlobLeases

open Machine SimpleTempDir

/-- **Blob leases keep data alive.** In a run whose steps meet the condition no call takes the lock
that it has, the references of a content are the leases and readers that are alive, and its file is
there as long as there is one. -/
theorem leases_sound {s : SimpleTempDir} (h : Steps step Meets new s) : s.Sound := by
  have hinv : s.Inv := h.invariant Inv new_inv fun _ _ _ hs hmeets hstep =>
    step_inv hs hmeets hstep
  exact hinv.sound

def content : ContentId := ⟨List.replicate 32 0, rfl⟩

theorem tail_advance {s s' : SimpleTempDir} (i : Nat) {call : Call} (h : Steps step Meets new s)
    (hcall : s.calls[i]? = some call) (hfair : s.Fair true call)
    (hstep : s.step (.advance i true) = some s') : Steps step Meets new s' := by
  refine h.tail (e := .advance i true) (fun other hother => ?_) hstep
  cases hcall.symm.trans hother
  exact hfair

/-- A content that is stored and dropped. -/
theorem leases_sound_once :
    ∃ s, Steps step Meets new s ∧ s.refs content = some 0 ∧ s.files content.path = none ∧
      s.Sound := by
  have hstore : Steps step Meets new _ := Steps.refl.tail (e := .store content [1]) trivial rfl
  have hlock := tail_advance 0 hstore rfl (by trivial) rfl
  have hdir := tail_advance 0 hlock rfl (by trivial) rfl
  have hexists := tail_advance 0 hdir rfl (by exact fun _ _ _ => rfl) rfl
  have hcreate := tail_advance 0 hexists rfl (by trivial) rfl
  have hwrite := tail_advance 0 hcreate rfl (by trivial) rfl
  have hpersist := tail_advance 0 hwrite rfl (by trivial) rfl
  have hdrop : Steps step Meets new _ := hpersist.tail (e := .drop 0) trivial rfl
  have hcount := tail_advance 1 hdrop rfl (by trivial) rfl
  have hparent := tail_advance 1 hcount rfl (by rfl) rfl
  have hremove := tail_advance 1 hparent rfl (by rfl) rfl
  exact ⟨_, hremove, rfl, rfl, leases_sound hremove⟩

/-- The content is stored and leased once more, by its id. -/
def again : List Event :=
  .store content [1] :: List.replicate 6 (.advance 0 true) ++
    .leaseByContent content :: List.replicate 3 (.advance 1 true)

/-- A reader of the content is opened, the last lease is dropped, and the reader is counted. -/
def late : List Event :=
  .store content [1] :: List.replicate 6 (.advance 0 true) ++
    [.getReader content, .advance 1 true, .advance 1 true, .drop 0, .advance 2 true,
      .advance 2 true, .advance 2 true, .advance 1 true]

theorem run_again : ∃ s, runSteps step new again = some s ∧
    s.calls[1]? = some (.running (.leaseByContent content) .addRef) ∧ s.locked = some 1 :=
  ⟨_, rfl, rfl, rfl⟩

theorem run_late : ∃ s, runSteps step new late = some s ∧
    s.holders content = 1 ∧ s.files content.path = none :=
  ⟨_, rfl, rfl, rfl⟩

/-- The first call has the lock and waits for it; in the other run the reader is alive and its file
is not there. -/
theorem lock_taken_twice : (∃ s, Steps step (fun _ _ => True) new s ∧ ¬ s.Sound ∧
      ∃ call, s.calls[1]? = some call ∧ call.locks = true ∧ s.locked = some 1) ∧
    ∃ s, Steps step (fun _ _ => True) new s ∧ ¬ s.Sound ∧
      0 < s.holders content ∧ s.files content.path = none := by
  constructor
  · obtain ⟨s, hrun, hcall, hlock⟩ := run_again
    refine ⟨s, (Runs.of_run hrun fun _ _ => trivial).steps, fun h => ?_, _, hcall, rfl, hlock⟩
    exact h.relock 1 _ hcall rfl hlock
  · obtain ⟨s, hrun, hholders, hfile⟩ := run_late
    have hpos : 0 < s.holders content := by omega
    refine ⟨s, (Runs.of_run hrun fun _ _ => trivial).steps, fun h => ?_, hpos, hfile⟩
    have hkept := h.kept content hpos
    rw [hfile] at hkept
    exact Bool.false_ne_true hkept

end Wakterm.Blob.Theorems.BlobLeases
