import Rkt.Code.Delimited
import Rkt.Code.UnitFile
import Rkt.Stage1.Units

set_option autoImplicit false

namespace Rkt.Stage1

open UnitFile Code

/-- `strings.Replace(s, old, new, -1)` for a single character `old`. -/
def replace (old : Char) (new s : Str) : Str := s.flatMap fun c => if c = old then new else [c]

def escArg (arg : Str) : Str :=
  -- the backslash has to come first: the next two put in backslashes of their own
  let escArg := replace '\\' ['\\', '\\'] arg
  let escArg := replace '"' ['\\', '"'] escArg
  let escArg := replace '\'' ['\\', '\''] escArg
  replace '$' ['$', '$'] escArg

def quoteArg (arg : Str) : Str := '"' :: (escArg arg ++ ['"'])

/-- `quoteExec`; there is no value for no arguments, where the source panics. -/
def quoteExec : List Str → Option Str
  | [] => none
  | e :: args => some (List.intercalate [' '] (e :: args.map quoteArg))

example : quoteExec ["path".toList, "\"arg1\"".toList, [], "'$\\".toList] =
    some "path \"\\\"arg1\\\"\" \"\" \"\\'$$\\\\\"".toList := by decide

def ExecOption.name : ExecOption → Str
  | .execStart => "ExecStart".toList
  | .execStartPre => "ExecStartPre".toList
  | .execStopPost => "ExecStopPost".toList

/-- The line of the unit file (`writeOption` and `writeNewline`). -/
def execLine (o : ExecOption) (exec : List Str) : Option Str :=
  (quoteExec exec).map fun value => o.name ++ '=' :: (value ++ ['\n'])

/-- What systemd makes of a text that begins with the option. -/
def readExec (spec : Char → Str) (env : Str → Str) (o : ExecOption) (text : Str) :
    Option (List Str) :=
  if (readOption text).1 = o.name then command spec env (readOption text).2 else none

/-- The command as systemd finds it, with more text after its line. -/
def readBack (spec : Char → Str) (env : Str → Str) (o : ExecOption) (exec : List Str)
    (after : Str) : Option (List Str) :=
  (execLine o exec).bind fun l => readExec spec env o (l ++ after)

def escChar (c : Char) : Str :=
  if c = '\\' ∨ c = '"' ∨ c = '\'' then ['\\', c] else if c = '$' then ['$', '$'] else [c]

/-- The replacements do not get in each other's way: the backslash, which the others add, is dealt
with first. -/
theorem escArg_eq (arg : Str) : escArg arg = arg.flatMap escChar := by
  simp only [escArg, replace, List.flatMap_assoc]
  refine List.flatMap_congr fun c _ => ?_
  by_cases h1 : c = '\\'
  · subst h1; decide
  by_cases h2 : c = '"'
  · subst h2; decide
  by_cases h3 : c = '\''
  · subst h3; decide
  by_cases h4 : c = '$'
  · subst h4; decide
  simp [escChar, h1, h2, h3, h4]

/-- What is left of the escapes after the quotes have been removed. -/
def dollars (arg : Str) : Str := replace '$' ['$', '$'] arg

theorem line_escChar {c : Char} (hc : c ≠ '\n') (x : Str) :
    line false (escChar c ++ x) = escChar c ++ line false x := by
  unfold escChar
  split_ifs with h1 h2
  · rcases h1 with rfl | rfl | rfl <;> simp [line]
  · simp [line]
  · simp_all [line]

theorem line_escArg {arg : Str} (h : '\n' ∉ arg) (x : Str) :
    line false (escArg arg ++ x) = escArg arg ++ line false x := by
  rw [escArg_eq]
  induction arg with
  | nil => rfl
  | cons c arg ih =>
    rw [List.mem_cons, not_or] at h
    rw [List.flatMap_cons, List.append_assoc, line_escChar (Ne.symm h.1), ih h.2,
      List.append_assoc]

theorem split_escArg (arg w x : Str) :
    split .quoted (some w) (escArg arg ++ x) = split .quoted (some (w ++ dollars arg)) x := by
  rw [escArg_eq]
  induction arg generalizing w with
  | nil => simp [dollars, replace]
  | cons c arg ih =>
    have hchar (y : Str) : split .quoted (some w) (escChar c ++ y) =
        split .quoted (some (w ++ dollars [c])) y := by
      unfold escChar
      split_ifs with h1 h2
      · rcases h1 with rfl | rfl | rfl <;> simp [split, dollars, replace]
      · simp [split, h2, dollars, replace]
      · simp only [not_or] at h1
        simp [split, h1, h2, dollars, replace]
    rw [List.flatMap_cons, List.append_assoc, hchar, ih]
    simp [dollars, replace]

/-- The arguments after the first one, as they stand in the line. -/
def quotedArgs (args : List Str) : Str := args.flatMap fun a => ' ' :: quoteArg a

theorem quoteExec_cons (e : Str) (args : List Str) :
    quoteExec (e :: args) = some (e ++ quotedArgs args) := by
  rw [quoteExec, intercalate_cons, List.flatMap_map, quotedArgs]

theorem quotedArgs_cons (a : Str) (args : List Str) (x : Str) :
    quotedArgs (a :: args) ++ x = [' ', '"'] ++ (escArg a ++ ('"' :: (quotedArgs args ++ x))) := by
  simp [quotedArgs, quoteArg]

variable {args : List Str}

theorem line_quotedArgs (h : ∀ a ∈ args, '\n' ∉ a) (x : Str) :
    line false (quotedArgs args ++ x) = quotedArgs args ++ line false x := by
  induction args with
  | nil => rfl
  | cons a args ih =>
    rw [quotedArgs_cons, quotedArgs_cons, line_append (by decide),
      line_escArg (h a List.mem_cons_self), line, if_neg (by decide), if_neg (by decide),
      ih fun a ha => h a (List.mem_cons_of_mem _ ha)]

theorem split_quotedArg (a : Str) (w : Option Str) (x : Str) :
    split .plain w ([' ', '"'] ++ (escArg a ++ x)) =
      (split .quoted (some (dollars a)) x).map (w.toList ++ ·) := by
  have hquoted := split_escArg a [] x
  rw [List.nil_append] at hquoted
  rw [← hquoted]
  rfl

theorem split_quotedArgs (args : List Str) (w : Option Str) :
    split .plain w (quotedArgs args) = some (w.toList ++ args.map dollars) := by
  induction args generalizing w with
  | nil => simp [quotedArgs, split]
  | cons a args ih =>
    have hcons := quotedArgs_cons a args []
    rw [List.append_nil, List.append_nil] at hcons
    rw [hcons, split_quotedArg, split, if_pos rfl, ih]
    simp

theorem split_newline (h : ∃ a ∈ args, '\n' ∈ a) (w : Option Str) (x : Str) :
    split .plain w (line false (quotedArgs args ++ x)) = none := by
  induction args generalizing w with
  | nil => simp at h
  | cons a args ih =>
    rw [quotedArgs_cons, line_append (by decide)]
    by_cases ha : '\n' ∈ a
    · -- up to the first newline the argument is read
      obtain ⟨a1, a2, rfl, ha1⟩ := List.eq_append_cons_of_mem ha
      have hesc (y : Str) : line false (escArg (a1 ++ '\n' :: a2) ++ y) = escArg a1 := by
        have happ : escArg (a1 ++ '\n' :: a2) = escArg a1 ++ '\n' :: escArg a2 := by
          simp [escArg_eq, escChar]
        rw [happ, List.append_assoc, line_escArg ha1]
        simp [line]
      have hquoted := split_quotedArg a1 w []
      rw [List.append_nil] at hquoted
      rw [hesc, hquoted]
      rfl
    · have hrest : ∃ a ∈ args, '\n' ∈ a := by
        simpa [ha] using h
      rw [line_escArg ha, split_quotedArg, line, if_neg (by decide), if_neg (by decide), split,
        if_pos rfl, ih hrest]
      rfl

theorem expand_dollars (env : Str → Str) (arg : Str) : expand env .text (dollars arg) = arg := by
  induction arg with
  | nil => rfl
  | cons c arg ih =>
    by_cases hc : c = '$'
    · subst hc
      simpa [dollars, replace, expand] using ih
    · simpa [dollars, replace, expand, hc] using ih

theorem expandWord_dollars (env : Str → Str) (arg : Str) :
    expandWord env (dollars arg) = [arg] := by
  have htext := expand_dollars env arg
  unfold expandWord
  split
  · rename_i c x heq
    -- a dollar sign in front comes with another one
    have hc : c = '$' := by
      cases arg with
      | nil => simp [dollars, replace] at heq
      | cons d arg =>
        by_cases hd : d = '$'
        · simp [dollars, replace, hd] at heq
          exact heq.1.symm
        · simp [dollars, replace, hd] at heq
    rw [if_pos (.inl hc), htext]
  · rw [htext]

theorem mem_dollars_singleton {c : Char} : '%' ∈ dollars [c] ↔ '%' = c := by
  by_cases hc : c = '$'
  · subst hc; decide
  · simp [dollars, replace, hc]

theorem mem_dropLast_dollars {arg : Str} : '%' ∈ (dollars arg).dropLast ↔ '%' ∈ arg.dropLast := by
  induction arg with
  | nil => simp [dollars, replace]
  | cons c arg ih =>
    cases arg with
    | nil =>
      by_cases hc : c = '$'
      · subst hc; decide
      · simp [dollars, replace, hc]
    | cons d arg =>
      have happ : dollars (c :: d :: arg) = dollars [c] ++ dollars (d :: arg) := by
        simp [dollars, replace]
      have hne : dollars (d :: arg) ≠ [] := by
        by_cases hd : d = '$' <;> simp [dollars, replace, hd]
      rw [happ, List.dropLast_append_of_ne_nil hne, List.mem_append, mem_dollars_singleton, ih,
        List.dropLast_cons_cons, List.mem_cons]

theorem count_dollars (arg : Str) : (dollars arg).count '%' = arg.count '%' := by
  induction arg with
  | nil => rfl
  | cons c arg ih =>
    by_cases hc : c = '$'
    · subst hc
      simpa [dollars, replace] using ih
    · simpa [dollars, replace, hc, List.count_cons] using ih

theorem ExecOption.name_plain (o : ExecOption) : o.name.all isPlain = true ∧ '=' ∉ o.name := by
  cases o <;> decide

def diagexec : Str := "/diagexec".toList

theorem readBack_eq (spec : Char → Str) (env : Str → Str) (o : ExecOption) (args : List Str)
    (after : Str) : readBack spec env o (diagexec :: args) after =
      ((split .plain (some diagexec) (line false (quotedArgs args ++ '\n' :: after))).map
        fun ws => (ws.map (specifiers spec false)).flatMap (expandWord env)) := by
  have hline : line false (o.name ++ '=' :: (diagexec ++ quotedArgs args ++ ['\n']) ++ after) =
      o.name ++ '=' :: (diagexec ++ line false (quotedArgs args ++ '\n' :: after)) := by
    have hdiag : ('=' :: diagexec).all isPlain = true := by decide
    have hplain : (o.name ++ '=' :: diagexec).all isPlain = true := by
      rw [List.all_append, o.name_plain.1, hdiag]
      rfl
    have happ := line_append hplain (quotedArgs args ++ '\n' :: after)
    simpa using happ
  rw [readBack, execLine, quoteExec_cons, Option.map_some, Option.bind_some, readExec,
    readOption_eq hline o.name_plain.2, if_pos rfl, command]
  have hfirst (x : Str) : split .plain none (diagexec ++ x) = split .plain (some diagexec) x :=
    split_plain (e := diagexec) (by decide) [] x
  rw [hfirst]

/-- What becomes of an argument after the quotes have been removed. -/
def readArg (spec : Char → Str) (env : Str → Str) (a : Str) : List Str :=
  expandWord env (specifiers spec false (dollars a))

theorem readBack_eq_some (h : ∀ a ∈ args, '\n' ∉ a) (spec : Char → Str)
    (env : Str → Str) (o : ExecOption) (after : Str) :
    readBack spec env o (diagexec :: args) after =
      some (diagexec :: args.flatMap (readArg spec env)) := by
  have hend : line false ('\n' :: after) = [] := by simp [line]
  have hfirst : expandWord env (specifiers spec false diagexec) = [diagexec] := rfl
  rw [readBack_eq, line_quotedArgs h, hend, List.append_nil, split_quotedArgs, Option.map_some,
    Option.toList_some, List.singleton_append, List.map_cons, List.flatMap_cons, hfirst,
    List.map_map, List.flatMap_map]
  rfl

theorem readBack_newline (h : ∃ a ∈ args, '\n' ∈ a) (spec : Char → Str)
    (env : Str → Str) (o : ExecOption) (after : Str) :
    readBack spec env o (diagexec :: args) after = none := by
  rw [readBack_eq, split_newline h]
  rfl

theorem readArg_eq {a : Str} (h : '%' ∉ a.dropLast) (spec : Char → Str) (env : Str → Str) :
    readArg spec env a = [a] := by
  have hpercent : '%' ∉ (dollars a).dropLast := mem_dropLast_dollars.not.mpr h
  rw [readArg, specifiers_of_notMem spec hpercent, expandWord_dollars]

/-- If specifiers and variables stand for nothing, no percent sign is added. -/
theorem count_readArg_le (a : Str) :
    (readArg (fun _ => []) (fun _ => []) a).flatten.count '%' ≤ a.count '%' := by
  calc (readArg (fun _ => []) (fun _ => []) a).flatten.count '%'
      ≤ (specifiers (fun _ => []) false (dollars a)).count '%' := count_expandWord_le _
    _ ≤ (dollars a).count '%' := count_specifiers_le false _
    _ = a.count '%' := count_dollars a

theorem count_readArg_lt {a : Str} (h : '%' ∈ a.dropLast) :
    (readArg (fun _ => []) (fun _ => []) a).flatten.count '%' < a.count '%' := by
  calc (readArg (fun _ => []) (fun _ => []) a).flatten.count '%'
      ≤ (specifiers (fun _ => []) false (dollars a)).count '%' := count_expandWord_le _
    _ < (dollars a).count '%' := count_specifiers_lt (mem_dropLast_dollars.mpr h)
    _ = a.count '%' := count_dollars a

theorem count_args_lt (h : ∃ a ∈ args, '%' ∈ a.dropLast) :
    (args.flatMap (readArg (fun _ => []) fun _ => [])).flatten.count '%' <
      args.flatten.count '%' := by
  have hsum (l : List Str) : (l.flatMap (readArg (fun _ => []) fun _ => [])).flatten.count '%' =
      (l.map fun a => (readArg (fun _ => []) (fun _ => []) a).flatten.count '%').sum := by
    induction l with
    | nil => rfl
    | cons a l ih => simp [ih]
  rw [hsum, List.count_flatten]
  obtain ⟨a, ha, hpercent⟩ := h
  exact List.sum_lt_sum _ _ (fun a _ => count_readArg_le a) ⟨a, ha, count_readArg_lt hpercent⟩

theorem readBack_untouched (h : ∀ a ∈ args, '\n' ∉ a ∧ '%' ∉ a.dropLast)
    (spec : Char → Str) (env : Str → Str) (o : ExecOption) (after : Str) :
    readBack spec env o (diagexec :: args) after = some (diagexec :: args) := by
  rw [readBack_eq_some fun a ha => (h a ha).1]
  have hargs : args.flatMap (readArg spec env) = args :=
    (List.flatMap_congr fun a ha => readArg_eq (h a ha).2 spec env).trans
      (List.flatMap_singleton' args)
  rw [hargs]

/-- **Systemd finds the command that was written exactly if no argument has a newline, or a
percent sign that is not its last character.** -/
theorem exec_read_back_iff (o : ExecOption) (args : List Str) :
    (∀ spec env after, readBack spec env o (diagexec :: args) after = some (diagexec :: args)) ↔
      ∀ a ∈ args, '\n' ∉ a ∧ '%' ∉ a.dropLast := by
  constructor
  · intro h
    have hnewline : ∀ a ∈ args, '\n' ∉ a := by
      intro a ha hmem
      have hnone := readBack_newline ⟨a, ha, hmem⟩ (fun _ => []) (fun _ => []) o []
      rw [h] at hnone
      cases hnone
    refine fun a ha => ⟨hnewline a ha, fun hpercent => ?_⟩
    -- let the specifiers vanish
    have hread := h (fun _ => []) (fun _ => []) []
    rw [readBack_eq_some hnewline] at hread
    have hargs := List.tail_eq_of_cons_eq (Option.some.inj hread)
    have hlt := count_args_lt ⟨a, ha, hpercent⟩
    rw [hargs] at hlt
    exact absurd hlt (lt_irrefl _)
  · intro h spec env after
    exact readBack_untouched h spec env o after

/-- **A percent sign in an argument gets lost, and a newline breaks the command off.** -/
theorem percent_not_read_back :
    readBack (fun _ => []) (fun _ => []) .execStart [diagexec, "100%%".toList] [] =
        some [diagexec, "100%".toList] ∧
      readBack (fun _ => []) (fun _ => []) .execStart [diagexec, "a\nb".toList] [] = none := by
  decide

/-- Each command of an app is found in its option as it was written, if the manifest has no such
characters in it. -/
theorem commands_read_back {appName : Str} {app : App} {cmds : List Command} {cmd : Command}
    (h : appToSystemd appName app = .ok cmds) (hcmd : cmd ∈ cmds)
    (hargv : ∀ a ∈ cmd.argv, '\n' ∉ a ∧ '%' ∉ a.dropLast) (spec : Char → Str) (env : Str → Str)
    (after : Str) : readBack spec env cmd.option cmd.argv after = some cmd.argv := by
  obtain ⟨uid, gid, -, -, hwrap⟩ := appToSystemd_argv h
  obtain ⟨exec, hexec⟩ := hwrap cmd hcmd
  have hcons : cmd.argv = diagexec :: ((execWrap appName app uid gid).tail ++ exec) := hexec
  rw [hcons] at hargv ⊢
  exact readBack_untouched (fun a ha => hargv a (List.mem_cons_of_mem _ ha)) spec env _ after

end Rkt.Stage1
