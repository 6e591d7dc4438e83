import Rkt.Stage1.EnvFile

set_option autoImplicit false

namespace Rkt.Stage1

open Assoc

/-- The environment a `diagexec` is started with; its values are strings of C. -/
structure Own where
  environ : Environ
  noNul : ∀ k v, environ k = some v → nul ∉ v

def Own.empty : Own := ⟨fun _ => none, fun _ _ h => by cases h⟩

def fileAfter (file : Str) (earlier : List Own) : Str :=
  earlier.foldl (fun file own => appendEnv file own.environ) file

/-- The environment that an invocation after some others passes to its program. -/
def passes (file : Str) (earlier : List Own) (own : Own) : Except EnvExit Environ :=
  loadEnv (fileAfter file earlier) own.environ

/-- The variables of socket activation, as far as the process has them. -/
def kept (own : Environ) (k : Str) : Option Str := if keepEnv.contains k then own k else none

/-- The value of a variable that the last invocation that had one has left. -/
def left (earlier : List Own) (k : Str) : Option Str :=
  earlier.reverse.findSome? fun own => kept own.environ k

def keptVars (own : Environ) : List (Str × Str) :=
  keepEnv.filterMap fun k => (own k).map fun v => (k, v)

theorem appendEnv_eq (file : Str) (own : Environ) :
    appendEnv file own = file ++ (keptVars own).flatMap writeVar := by
  have hkept : ∀ names : List Str, names.flatMap (keptVar own) =
      (names.filterMap fun k => (own k).map fun v => (k, v)).flatMap writeVar := by
    intro names
    induction names with
    | nil => rfl
    | cons k names ih =>
      rw [List.flatMap_cons, ih, List.filterMap_cons, keptVar]
      cases own k with
      | none => rfl
      | some v => rfl
  rw [appendEnv, hkept]
  rfl

theorem fileAfter_eq (file : Str) (earlier : List Own) : fileAfter file earlier =
      file ++ (earlier.flatMap fun own => keptVars own.environ).flatMap writeVar := by
  induction earlier generalizing file with
  | nil => simp [fileAfter]
  | cons own earlier ih =>
    show fileAfter (appendEnv file own.environ) earlier = _
    rw [ih, appendEnv_eq, List.flatMap_cons, List.flatMap_append, List.append_assoc]

theorem keepEnv_names :
    keepEnv.all (fun k => !k.isEmpty && !k.contains '=' && !k.contains nul) = true := by
  decide

theorem keptVars_ok (own : Own) : ∀ e ∈ keptVars own.environ, VarOk e := by
  intro e he
  obtain ⟨k, hk, hkv⟩ := List.mem_filterMap.mp he
  obtain ⟨v, hv, rfl⟩ := Option.map_eq_some_iff.mp hkv
  have hname := List.all_eq_true.mp keepEnv_names k hk
  simp only [Bool.and_eq_true, Bool.not_eq_true', List.isEmpty_eq_false_iff,
    List.contains_eq_mem, decide_eq_false_iff_not] at hname
  exact ⟨hname.1.1, hname.1.2, hname.2, own.noNul k v hv⟩

theorem foldl_put_filterMap (own : Environ) (names : List Str) (m : Environ) (k : Str) :
    (names.filterMap fun k => (own k).map fun v => (k, v)).foldl put m k =
      (if names.contains k then own k else none).or (m k) := by
  induction names generalizing m with
  | nil => rfl
  | cons n names ih =>
    have hset : (List.filterMap (fun k => (own k).map fun v => (k, v)) (n :: names)).foldl put m k
        = (if names.contains k then own k else none).or
            (if k = n then (own k).or (m k) else m k) := by
      rw [List.filterMap_cons]
      by_cases hk : k = n
      · subst hk
        rw [if_pos rfl]
        cases hown : own k with
        | none => rw [Option.map_none, ih, hown]; rfl
        | some v =>
          rw [Option.map_some, List.foldl_cons, ih, put, Function.update_self, hown]
          rfl
      · rw [if_neg hk]
        cases own n with
        | none => rw [Option.map_none, ih]
        | some v => rw [Option.map_some, List.foldl_cons, ih, put, Function.update_of_ne hk]
    rw [hset, List.contains_cons]
    by_cases hk : k = n
    · rw [if_pos hk, beq_iff_eq.mpr hk, Bool.true_or, if_pos rfl]
      cases own k with
      | none => rw [ite_self]; rfl
      | some v => split_ifs <;> rfl
    · rw [if_neg hk, beq_eq_false_iff_ne.mpr hk, Bool.false_or]

theorem foldl_keptVars (own m : Environ) (k : Str) :
    (keptVars own).foldl put m k = (kept own k).or (m k) :=
  foldl_put_filterMap own keepEnv m k

theorem foldl_earlier (earlier : List Own) (m : Environ) (k : Str) :
    (earlier.flatMap fun own => keptVars own.environ).foldl put m k =
      (left earlier k).or (m k) := by
  induction earlier generalizing m with
  | nil => rfl
  | cons own earlier ih =>
    rw [List.flatMap_cons, List.foldl_append, ih, foldl_keptVars, left, left, List.reverse_cons,
      List.findSome?_append, List.findSome?_singleton, Option.or_assoc]

theorem exists_strings (x : Str) : ∃ ks, (∀ k ∈ ks, nul ∉ k) ∧ x ++ [nul] = strings ks := by
  induction x with
  | nil => exact ⟨[[]], by simp, rfl⟩
  | cons c x ih =>
    obtain ⟨ks, hks, hx⟩ := ih
    cases ks with
    | nil => simp [strings] at hx
    | cons k ks =>
      by_cases hc : c = nul
      · -- the character ends an empty string
        refine ⟨[] :: k :: ks, ?_, ?_⟩
        · rw [List.forall_mem_cons]
          exact ⟨List.not_mem_nil, hks⟩
        · rw [strings_cons, hc, List.cons_append, hx]
          rfl
      · -- the character is the first one of the first string
        obtain ⟨hk, hks⟩ := List.forall_mem_cons.mp hks
        refine ⟨(c :: k) :: ks, ?_, ?_⟩
        · rw [List.forall_mem_cons, List.mem_cons, not_or]
          exact ⟨⟨Ne.symm hc, hk⟩, hks⟩
        · rw [strings_cons, List.cons_append, hx, strings_cons]
          rfl

/-- Whatever the names and values are, a file of variables is a list of strings. -/
theorem flatMap_writeVar_strings (es : List (Str × Str)) :
    ∃ ks, (∀ k ∈ ks, nul ∉ k) ∧ es.flatMap writeVar = strings ks := by
  by_cases hes : es = []
  · exact ⟨[], by simp, by rw [hes]; rfl⟩
  · rw [flatMap_writeVar, ← dropLast_strings (by simpa using hes)]
    exact exists_strings _

/-- **The three layers** of an environment: the file as it was written, what the earlier
invocations have left, and the process's own variables. -/
theorem passes_strings {ks : List Str} (hks : ∀ k ∈ ks, nul ∉ k) (earlier : List Own) (own : Own) :
    passes (strings ks) earlier own = (ks.foldlM entry fun _ => none).map fun m k =>
      (kept own.environ k).or ((left earlier k).or (m k)) := by
  have hok : ∀ e ∈ (earlier.flatMap fun own => keptVars own.environ) ++ keptVars own.environ,
      VarOk e := by
    intro e he
    rcases List.mem_append.mp he with he | he
    · obtain ⟨own', -, he⟩ := List.mem_flatMap.mp he
      exact keptVars_ok own' e he
    · exact keptVars_ok own e he
  have hfile : appendEnv (fileAfter (strings ks) earlier) own.environ =
      strings (ks ++ ((earlier.flatMap fun own => keptVars own.environ) ++
        keptVars own.environ).map fun e => e.1 ++ '=' :: e.2) := by
    rw [appendEnv_eq, fileAfter_eq, List.append_assoc, ← List.flatMap_append, flatMap_writeVar,
      strings_append]
  rw [passes, loadEnv_of_strings hfile, List.foldlM_append]
  · cases ks.foldlM entry fun _ => none with
    | error e => rfl
    | ok m =>
      show List.foldlM entry m _ = _
      rw [foldlM_entry hok, List.foldl_append]
      show Except.ok _ = Except.ok _
      congr 1
      funext k
      rw [foldl_keptVars, foldl_earlier]
  · intro k hk
    rcases List.mem_append.mp hk with hk | hk
    · exact hks k hk
    · exact varStrings_noNul hok k hk

theorem passes_writeEnvFile {defaults : List (Str × Str)} (hperm : defaults.Perm defaultEnv)
    (env : Environment) (earlier : List Own) (own : Own) :
    passes (writeEnvFile defaults env) earlier own = .ok fun k =>
      (kept own.environ k).or ((left earlier k).or ((env.get k).or (defaultEnv.lookup k))) := by
  have hok := fileVars_ok hperm env
  rw [writeEnvFile_eq, flatMap_writeVar, passes_strings (varStrings_noNul hok), foldlM_entry hok,
    foldl_put_eq_lookup (fileVars_distinct hperm env)]
  show Except.ok _ = Except.ok _
  congr 1
  funext k
  rw [← lookup_fileVars hperm]

theorem or_or_eq_iff (a b c : Option Str) :
    a.or (b.or c) = a.or c ↔ (a = none → ∀ v, b = some v → c = some v) := by
  cases a with
  | some a => simp
  | none =>
    cases b with
    | none => simp
    | some b => simp [eq_comm]

/-- **When an invocation does not see the earlier ones.** The file holds any variables, as
`writeEnvFile` writes them, and some invocations have been made on it. Then the next one passes on
the same environment as if it were the first, exactly if for each variable of socket activation
that it lacks and an earlier invocation had, the last value of it is the one that the app's own
environment has. -/
theorem passes_own_iff (es : List (Str × Str)) (earlier : List Own) (own : Own) :
    passes (es.flatMap writeVar) earlier own = passes (es.flatMap writeVar) [] own ↔
      ∀ m, passes (es.flatMap writeVar) [] .empty = .ok m → ∀ k, kept own.environ k = none →
        ∀ v, left earlier k = some v → m k = some v := by
  obtain ⟨ks, hks, hes⟩ := flatMap_writeVar_strings es
  rw [hes, passes_strings hks, passes_strings hks, passes_strings hks]
  have hempty : ∀ k, kept Own.empty.environ k = none := fun k => ite_self none
  cases ks.foldlM entry fun _ => none with
  | error e => simp [Except.map]
  | ok m =>
    have hbase : Except.map (fun (m : Environ) k => (kept Own.empty.environ k).or
        ((left [] k).or (m k))) (Except.ok m : Except EnvExit Environ) = .ok m := by
      show Except.ok _ = Except.ok _
      congr 1
      funext k
      show (kept Own.empty.environ k).or (m k) = m k
      rw [hempty]
      rfl
    rw [hbase]
    constructor
    · intro heq m' hm' k hk v hv
      cases hm'
      have hk' := congrFun (Except.ok.inj heq) k
      exact (or_or_eq_iff _ _ _).mp hk' hk v hv
    · intro h
      show Except.ok _ = Except.ok _
      congr 1
      funext k
      exact (or_or_eq_iff _ _ _).mpr (h m rfl k)

def oneSocket : Own where
  environ k := if k = "LISTEN_FDS".toList then some "1".toList else none
  noNul k v h := by
    split_ifs at h
    cases h
    decide

/-- The main process of an app is started with a socket. A later process that is started without
one, such as the post-stop handler, gets `LISTEN_FDS` all the same, which the app's environment
does not define. -/
theorem listenFds_passed_on :
    ∃ m, passes (writeEnvFile defaultEnv homeEnv) [oneSocket] .empty = .ok m ∧
      m "LISTEN_FDS".toList = some "1".toList ∧
      (∃ m', passes (writeEnvFile defaultEnv homeEnv) [] .empty = .ok m' ∧
        m' "LISTEN_FDS".toList = none) ∧
      homeEnv.get "LISTEN_FDS".toList = none :=
  ⟨_, passes_writeEnvFile (List.Perm.refl _) homeEnv _ _, by decide,
    ⟨_, passes_writeEnvFile (List.Perm.refl _) homeEnv _ _, by decide⟩, by decide⟩

end Rkt.Stage1
