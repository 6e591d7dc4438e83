import Rkt.Metadata.Registration

set_option autoImplicit false

namespace Rkt.Metadata

open Conc Conc.Prog

inductive Attempt where
  /-- The attempt fails, after so many bytes of the body have been read. -/
  | fails (n : Nat)
  /-- The service is reached. -/
  | reaches

/-- The reader of a request. -/
structure Sending where
  /-- What has not been read yet. -/
  left : List UInt8
  /-- The reader is an `io.Closer`. -/
  closer : Bool
  closed : Bool
  /-- What the attempts come to; after these they fail. -/
  attempts : List Attempt
  /-- What the service got when it was reached; `none` if the body could not be read, so that there
  was no request. -/
  received : List (Option (List UInt8))

/-- The reader after an attempt that has failed. -/
def Sending.failed (s : Sending) (n : Nat) : Sending :=
  { s with
    left := if s.closed then s.left else s.left.drop n
    closed := s.closer || s.closed
    attempts := s.attempts.tail }

def sendNext : (o : RegOp) → o.Res → Sending → Option Sending
  | .attempt _, (r : Except TransportErr Nat), s =>
    match s.attempts.headD (.fails 0), r with
    | .fails n, .error _ => some (s.failed n)
    | .reaches, .ok _ =>
      if s.closed then none
      else some { s with left := [], received := s.received ++ [some s.left] }
    | .reaches, .error _ =>
      if s.closed then
        some { s with attempts := s.attempts.tail, received := s.received ++ [none] }
      else none
    | _, _ => none
  | _, _, s => some s

/-- What is sent at the first attempt that reaches the service, after some that have failed. -/
def Sending.after (s : Sending) (failed : List Nat) : Option (List UInt8) :=
  if s.closed ∨ (s.closer ∧ failed ≠ []) then none else some (s.left.drop failed.sum)

theorem Sending.after_failed (s : Sending) (n : Nat) (failed : List Nat) :
    (s.failed n).after failed = s.after (n :: failed) := by
  cases hclosed : s.closed <;> cases hcloser : s.closer <;>
    simp [Sending.after, Sending.failed, hclosed, hcloser]

/-- The service is reached for the first time after these attempts have failed. -/
def Sending.Reached (s : Sending) (failed : List Nat) : Prop :=
  ∃ rest, s.attempts = failed.map .fails ++ .reaches :: rest

theorem Sending.reached_cons_iff {s : Sending} {n : Nat} {rest : List Attempt} {failed : List Nat}
    (hs : s.attempts = .fails n :: rest) :
    (s.failed n).Reached failed ↔ s.Reached (n :: failed) := by
  simp only [Sending.Reached, Sending.failed, hs, List.tail_cons, List.map_cons, List.cons_append,
    List.cons.injEq, true_and]

variable {req : Request}

/-- The loop, by induction on the attempts that are left. -/
theorem httpAttempts_runs {n : Nat} {e : TransportErr} {s s' : Sending} {r : Except HttpErr Unit}
    (h : (httpAttempts req n e).Runs sendNext s r s') {b : Option (List UInt8)}
    (hb : b ∈ s'.received) :
    b ∈ s.received ∨ ∃ failed, s.Reached failed ∧ failed.length < n ∧ b = s.after failed := by
  induction n generalizing e s with
  | zero =>
    cases e <;> obtain ⟨-, rfl⟩ := h <;> exact .inl hb
  | succ n ih =>
    obtain ⟨r1, s1, hcall, hrest⟩ := runs_bind.mp h
    rw [runs_call] at hcall
    cases hs : s.attempts with
    | nil =>
      cases r1 with
      | ok st => simp [sendNext, hs] at hcall
      | error e1 =>
        simp only [sendNext, hs, List.headD_nil, Option.some.injEq] at hcall
        subst hcall
        obtain hold | ⟨failed, ⟨rest, hrest'⟩, -⟩ := ih hrest
        · exact .inl hold
        · simp [Sending.failed, hs] at hrest'
    | cons a rest =>
      cases a with
      | fails k =>
        cases r1 with
        | ok st => simp [sendNext, hs] at hcall
        | error e1 =>
          simp only [sendNext, hs, List.headD_cons, Option.some.injEq] at hcall
          subst hcall
          obtain hold | ⟨failed, hreached, hlen, rfl⟩ := ih hrest
          · exact .inl hold
          · exact .inr ⟨k :: failed, (Sending.reached_cons_iff hs).mp hreached,
              Nat.succ_lt_succ hlen, s.after_failed k failed⟩
      | reaches =>
        have hreached : s.Reached [] := ⟨rest, hs⟩
        cases r1 with
        | ok st =>
          simp only [sendNext, hs, List.headD_cons] at hcall
          split at hcall
          · cases hcall
          rename_i hopen
          have hs' : s'.received = s.received ++ [some s.left] := by
            cases hcall
            simp only at hrest
            split at hrest <;> rw [hrest.2]
          rw [hs'] at hb
          rcases List.mem_append.mp hb with hold | hnew
          · exact .inl hold
          · refine .inr ⟨[], hreached, Nat.succ_pos n, ?_⟩
            rw [List.mem_singleton.mp hnew]
            simp [Sending.after, hopen]
        | error e1 =>
          simp only [sendNext, hs, List.headD_cons] at hcall
          split at hcall
          · rename_i hclosed
            cases hcall
            have hnone : ∀ failed, s.after failed = none := fun failed => if_pos (.inl hclosed)
            obtain hold | ⟨failed, -, -, rfl⟩ := ih hrest
            · rcases List.mem_append.mp hold with hold | hnew
              · exact .inl hold
              · exact .inr ⟨[], hreached, Nat.succ_pos n,
                  (List.mem_singleton.mp hnew).trans (hnone []).symm⟩
            · exact .inr ⟨[], hreached, Nat.succ_pos n, (hnone failed).trans (hnone []).symm⟩
          · cases hcall

/-- There is a run, and in it the service is reached as the attempts have it. -/
theorem httpAttempts_reaches (req : Request) (n : Nat) (e : TransportErr) (s : Sending) :
    ∃ r s', (httpAttempts req n e).Runs sendNext s r s' ∧ s.received ⊆ s'.received ∧
      ∀ failed, s.Reached failed → failed.length < n → s.after failed ∈ s'.received := by
  induction n generalizing e s with
  | zero =>
    cases e <;>
      exact ⟨_, s, ⟨rfl, rfl⟩, List.Subset.refl _, fun _ _ h => absurd h (Nat.not_lt_zero _)⟩
  | succ n ih =>
    -- a step that goes on with the loop
    have hgo : ∀ s1, sendNext (.attempt req) (.error .other) s = some s1 →
        s.received ⊆ s1.received → (∀ failed, s.Reached failed → failed.length < n + 1 →
          s.after failed ∈ s1.received ∨
            ∃ failed', s1.Reached failed' ∧ failed'.length < n ∧ s1.after failed' = s.after failed) →
        ∃ r s', (httpAttempts req (n + 1) e).Runs sendNext s r s' ∧ s.received ⊆ s'.received ∧
          ∀ failed, s.Reached failed → failed.length < n + 1 → s.after failed ∈ s'.received := by
      intro s1 hn hsub hfirst
      obtain ⟨r, s', hruns, hkeep, hlater⟩ := ih .other s1
      refine ⟨r, s', runs_bind.mpr ⟨.error .other, s1, runs_call.mpr hn, hruns⟩,
        List.Subset.trans hsub hkeep, fun failed hreached hlen => ?_⟩
      obtain hnow | ⟨failed', hreached', hlen', heq⟩ := hfirst failed hreached hlen
      · exact hkeep hnow
      · exact heq ▸ hlater failed' hreached' hlen'
    cases hs : s.attempts with
    | nil =>
      refine hgo (s.failed 0) (by simp [sendNext, hs]) (List.Subset.refl _) ?_
      rintro failed ⟨rest, hrest⟩ -
      simp [hs] at hrest
    | cons a rest =>
      cases a with
      | fails k =>
        refine hgo (s.failed k) (by simp [sendNext, hs]) (List.Subset.refl _) ?_
        intro failed hreached hlen
        cases failed with
        | nil =>
          obtain ⟨rest', hrest'⟩ := hreached
          rw [hs] at hrest'
          cases hrest'
        | cons k' failed =>
          obtain rfl : k' = k := by
            obtain ⟨rest', hrest'⟩ := hreached
            rw [hs] at hrest'
            simp only [List.map_cons, List.cons_append, List.cons.injEq, Attempt.fails.injEq]
              at hrest'
            exact hrest'.1.symm
          exact .inr ⟨failed, (Sending.reached_cons_iff hs).mpr hreached,
            Nat.lt_of_succ_lt_succ hlen, s.after_failed k' failed⟩
      | reaches =>
        have hfirst : ∀ failed, s.Reached failed → failed = [] := by
          rintro failed ⟨rest', hrest'⟩
          rw [hs] at hrest'
          cases failed with
          | nil => rfl
          | cons k failed => cases hrest'
        cases hclosed : s.closed with
        | true =>
          refine hgo { s with attempts := s.attempts.tail, received := s.received ++ [none] }
            (by simp [sendNext, hs, hclosed]) (List.subset_append_left _ _) ?_
          intro failed hreached _
          rw [hfirst failed hreached, Sending.after, if_pos (.inl hclosed)]
          exact .inl (List.mem_append_right _ (List.mem_singleton.mpr rfl))
        | false =>
          refine ⟨.ok (), { s with left := [], received := s.received ++ [some s.left] },
            runs_bind.mpr ⟨.ok 200, _, runs_call.mpr (by simp [sendNext, hs, hclosed]), rfl, rfl⟩,
            List.subset_append_left _ _, fun failed hreached _ => ?_⟩
          rw [hfirst failed hreached]
          simp [Sending.after, hclosed]

/-- Whenever the service is reached, it gets the whole body. -/
def Complete (req : Request) (closer : Bool) (body : List UInt8) (attempts : List Attempt) : Prop :=
  ∀ r s', (httpRequest req).Runs sendNext ⟨body, closer, false, attempts, []⟩ r s' →
    ∀ b ∈ s'.received, b = some body

/-- **The service gets the whole body whenever it is reached** exactly if no attempt fails before
the first one that reaches it; or the body is not closed, and these attempts read nothing, or there
is nothing to read. -/
theorem body_complete_iff (req : Request) (closer : Bool) (body : List UInt8)
    (attempts : List Attempt) :
    Complete req closer body attempts ↔
      ∀ failed rest, attempts = failed.map .fails ++ .reaches :: rest →
        failed.length < retryCount →
        failed = [] ∨ (closer = false ∧ (body = [] ∨ ∀ n ∈ failed, n = 0)) := by
  set s : Sending := ⟨body, closer, false, attempts, []⟩ with hs
  have hafter : ∀ failed, s.after failed = some body ↔
      failed = [] ∨ (closer = false ∧ (body = [] ∨ ∀ n ∈ failed, n = 0)) := by
    intro failed
    have hdrop : body.drop failed.sum = body ↔ body = [] ∨ ∀ n ∈ failed, n = 0 := by
      rw [← List.sum_eq_zero_iff_forall_eq_nat, ← List.length_eq_zero_iff]
      constructor
      · intro h
        have hlen := congrArg List.length h
        rw [List.length_drop] at hlen
        omega
      · rintro (h | h)
        · rw [List.length_eq_zero_iff.mp h, List.drop_nil]
        · rw [h, List.drop_zero]
    by_cases hnil : failed = []
    · simp [hs, Sending.after, hnil]
    · cases closer <;> simp [hs, Sending.after, hnil, hdrop]
  constructor
  · intro h failed rest hrest hlen
    obtain ⟨r, s', hruns, -, hreached⟩ := httpAttempts_reaches req retryCount .other s
    exact (hafter failed).mp (h r s' hruns _ (hreached failed ⟨rest, hrest⟩ hlen))
  · intro h r s' hruns b hb
    obtain hold | ⟨failed, ⟨rest, hrest⟩, hlen, rfl⟩ := httpAttempts_runs hruns hb
    · cases hold
    · exact (hafter failed).mpr (h failed rest hrest hlen)

/-- The connection breaks after one byte of two; and for a file, it is enough that there is no
service at the first attempt. -/
theorem rest_of_body_received :
    (∃ s', s'.received = [some [2]] ∧ (httpRequest (.registerPod (.error []) [] (.error []))).Runs
      sendNext ⟨[1, 2], false, false, [.fails 1, .reaches], []⟩ (.ok ()) s') ∧
    ∃ s', s'.received = [none, none] ∧ (httpRequest (.registerPod (.error []) [] (.error []))).Runs
      sendNext ⟨[1, 2], true, false, [.fails 0, .reaches, .reaches], []⟩ (.error .transport) s' :=
  ⟨⟨_, rfl, runs_bind.mpr ⟨.error .unreachable, _, runs_call.mpr rfl,
      runs_bind.mpr ⟨.ok 200, _, runs_call.mpr rfl, rfl, rfl⟩⟩⟩,
    ⟨_, rfl, runs_bind.mpr ⟨.error .unreachable, _, runs_call.mpr rfl,
      runs_bind.mpr ⟨.error .other, _, runs_call.mpr rfl,
        runs_bind.mpr ⟨.error .other, _, runs_call.mpr rfl, rfl, rfl⟩⟩⟩⟩⟩

end Rkt.Metadata
