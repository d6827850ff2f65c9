import SinglePass.CommandLine
import SinglePass.Proofs.JsonRoundTrip
import SinglePass.Proofs.Writing

/-!
# What an argument list asks for

An argument list is a list of items: flags, configurations with their paths, and expressions (`CommandLine.items`).
The outcome of the program can be read off the items without following the options from one to the next: the first
configuration that fails decides, and without one the last expression is evaluated under the last configuration, and
any flag for JSON counts wherever it stands (`CommandLine.Ends`).

Reading the options takes one item after another (`readOptions_eq_foldlM`); what it arrives at is described by
`foldlM_take` if all items can be used, and by `foldlM_take_of_fails` if one cannot.
-/

namespace SinglePass.CommandLine

/-! ### Items -/

/-- What an argument asks for, together with the argument that it takes along. -/
inductive Item where
  | json
  /-- `--config` and the argument behind it, unless it is the last one. -/
  | config (path : Option String)
  | expression (source : String)
deriving DecidableEq

/-- The items of an argument list, from left to right.  The argument behind `--config` is a path, whatever it says. -/
def items : List String → List Item
  | [] => []
  | arg :: rest =>
    if arg = "--json" then .json :: items rest
    else if arg = "--config" then
      match rest with
      | [] => [.config none]
      | path :: rest => .config (some path) :: items rest
    else .expression arg :: items rest

namespace Item

variable (w : Surroundings)

/-- The ways in which an item ends the reading of the options, each with the report. -/
inductive Fails : Item → String → Prop
  | missingPath : Fails (.config none) "Error: --config needs a file path\n"
  | unreadable {path reason : String} : w.file path = .error reason → Fails (.config (some path))
      ("Error: reading config file '" ++ path ++ "'\n\nCaused by:\n    " ++ reason ++ "\n")
  | invalidConfig {path text : String} : w.file path = .ok text → Config.ofText? text = none →
      Fails (.config (some path)) ("Error: Configuration error: " ++ w.complaint text ++ "\n")

def Usable (item : Item) : Prop := ∀ report, ¬item.Fails w report

/-- The configuration that an item asks for, if it can be used. -/
def config? : Item → Option Config
  | .config (some path) => (w.file path).toOption.bind Config.ofText?
  | _ => none

def source? : Item → Option String
  | .expression source => some source
  | _ => none

end Item

/-- The last configuration of the items, or the default. -/
def lastConfig (w : Surroundings) (is : List Item) : Config :=
  (is.filterMap (Item.config? w)).getLast?.getD {}

/-- The last expression of the items. -/
def lastSource? (is : List Item) : Option String := (is.filterMap Item.source?).getLast?

/-- How the program ends if its arguments are these items. -/
inductive Ends (w : Surroundings) (is : List Item) : Outcome → Prop
  /-- The first item that cannot be used is reported, whatever is behind it. -/
  | failed {before after : List Item} {item : Item} {report : String} : is = before ++ item :: after →
      (∀ i ∈ before, i.Usable w) → item.Fails w report → Ends w is ⟨1, "", report⟩
  | noSource : (∀ i ∈ is, i.Usable w) → lastSource? is = none → Ends w is ⟨2, "", usage⟩
  | value {source : String} {v : Value} : (∀ i ∈ is, i.Usable w) → lastSource? is = some source →
      Interpreter.evaluate { config := lastConfig w is } source = .ok v →
      Ends w is ⟨0, (if .json ∈ is then v.json else v.display) ++ "\n", ""⟩
  | error {source : String} {e : Error} : (∀ i ∈ is, i.Usable w) → lastSource? is = some source →
      Interpreter.evaluate { config := lastConfig w is } source = .error e →
      Ends w is ⟨1, "", e.category.name ++ ": " ++ e.message ++ "\n"⟩

/-! ### One item -/

variable {w : Surroundings}

/-- The options after one more item. -/
def Options.take (w : Surroundings) (o : Options) : Item → Except Failure Options
  | .json => .ok { o with json := true }
  | .config none => .error .missingPath
  | .config (some path) => (loadConfig w path).map fun c => { o with config := c }
  | .expression source => .ok { o with source := some source }

/-- The failure of an item that cannot be used has the report that is due. -/
theorem Options.take_of_fails (o : Options) {item : Item} {report : String} (h : item.Fails w report) :
    ∃ failure, o.take w item = .error failure ∧ failure.report = report := by
  cases h with
  | missingPath => exact ⟨.missingPath, rfl, rfl⟩
  | @unreadable path reason hread =>
    refine ⟨.unreadable path reason, ?_, rfl⟩
    rw [take, loadConfig, hread]
    rfl
  | @invalidConfig path text hread hnone =>
    refine ⟨.invalidConfig (.invalidConfig (w.complaint text)), ?_, ?_⟩
    · rw [take, loadConfig, hread]
      simp only [Config.parseJson, hnone]
      rfl
    · have hhead : "Error: " ++ "Configuration error: " = "Error: Configuration error: " := by decide
      show "Error: " ++ ("Configuration error: " ++ w.complaint text) ++ "\n" = _
      rw [← String.append_assoc, hhead]

/-- An item that can be used sets the option that it is about and leaves the others. -/
theorem Options.take_of_usable (o : Options) {item : Item} (h : item.Usable w) :
    o.take w item = .ok ⟨o.json || decide (item = .json), (item.config? w).getD o.config,
      item.source?.or o.source⟩ := by
  cases item with
  | json => simp [take, Item.config?, Item.source?]
  | expression source => simp [take, Item.config?, Item.source?]
  | config path =>
    cases path with
    | none => exact absurd .missingPath (h _)
    | some path =>
      cases hread : w.file path with
      | error reason => exact absurd (.unreadable hread) (h _)
      | ok text =>
        cases hconfig : Config.ofText? text with
        | none => exact absurd (.invalidConfig hread hconfig) (h _)
        | some c =>
          simp [take, loadConfig, hread, Config.parseJson, hconfig, Except.map, Item.config?, Except.toOption,
            Item.source?]

/-! ### All items -/

theorem readOptions_eq_foldlM (o : Options) (args : List String) :
    readOptions w o args = (items args).foldlM (Options.take w) o := by
  -- one case for each way in which `items` takes arguments off the list
  fun_induction items args generalizing o with
  | case1 => rfl
  | case2 rest ih =>
    unfold readOptions
    rw [if_pos rfl, List.foldlM_cons]
    exact ih _
  | case3 hjson =>
    rw [readOptions, if_neg hjson, if_pos rfl]
    rfl
  | case4 path rest hjson ih =>
    rw [readOptions, if_neg hjson, if_pos rfl, List.foldlM_cons, Options.take]
    cases loadConfig w path with
    | error failure => rfl
    | ok c => exact ih _
  | case5 arg rest hjson hconfig ih =>
    unfold readOptions
    rw [if_neg hjson, if_neg hconfig, List.foldlM_cons]
    exact ih _

/-- The last of what the items ask for is asked for by the rest, or else by the first item. -/
theorem getLast?_filterMap_cons {β : Type} (f : Item → Option β) (item : Item) (is : List Item) :
    ((item :: is).filterMap f).getLast? = (is.filterMap f).getLast?.or (f item) := by
  rw [List.filterMap_cons]
  cases f item with
  | none => simp
  | some b => cases h : (is.filterMap f).getLast? <;> simp [List.getLast?_cons, h]

/-- Items that can all be used leave the last of what they ask for, and what was there before where they ask for
nothing. -/
theorem foldlM_take {is : List Item} (h : ∀ i ∈ is, i.Usable w) (o : Options) :
    is.foldlM (Options.take w) o = .ok ⟨o.json || decide (.json ∈ is),
      (is.filterMap (Item.config? w)).getLast?.getD o.config, (lastSource? is).or o.source⟩ := by
  induction is generalizing o with
  | nil => simp [lastSource?, pure, Except.pure]
  | cons item is ih =>
    obtain ⟨hitem, his⟩ := List.forall_mem_cons.1 h
    rw [List.foldlM_cons, o.take_of_usable hitem]
    refine (ih his _).trans ?_
    -- what the first item asks for is overridden by what the rest asks for
    have hjson : decide (Item.json ∈ item :: is) = (decide (item = .json) || decide (Item.json ∈ is)) := by
      simp [eq_comm]
    rw [lastSource?, lastSource?, getLast?_filterMap_cons, getLast?_filterMap_cons, hjson, Bool.or_assoc,
      Option.or_assoc]
    cases (is.filterMap (Item.config? w)).getLast? <;> rfl

theorem foldlM_take_of_fails {before after : List Item} {item : Item} {report : String}
    (hbefore : ∀ i ∈ before, i.Usable w) (h : item.Fails w report) (o : Options) :
    ∃ failure, (before ++ item :: after).foldlM (Options.take w) o = .error failure ∧ failure.report = report := by
  rw [List.foldlM_append, foldlM_take hbefore]
  obtain ⟨failure, htake, hreport⟩ := Options.take_of_fails _ h
  refine ⟨failure, ?_, hreport⟩
  show List.foldlM (Options.take w) _ (item :: after) = _
  rw [List.foldlM_cons, htake]
  rfl

/-- All items can be used, or there is a first one that cannot. -/
theorem usable_or_fails (w : Surroundings) (is : List Item) : (∀ i ∈ is, i.Usable w) ∨
    ∃ before item after report, is = before ++ item :: after ∧ (∀ i ∈ before, i.Usable w) ∧ item.Fails w report := by
  induction is with
  | nil => exact .inl (by simp)
  | cons item is ih =>
    by_cases hitem : item.Usable w
    · rcases ih with his | ⟨before, i, after, report, rfl, hbefore, hi⟩
      · exact .inl (List.forall_mem_cons.2 ⟨hitem, his⟩)
      · exact .inr ⟨item :: before, i, after, report, rfl, List.forall_mem_cons.2 ⟨hitem, hbefore⟩, hi⟩
    · obtain ⟨report, hfails⟩ := not_forall_not.1 hitem
      exact .inr ⟨[], item, is, report, rfl, by simp, hfails⟩

/-! ### The outcome -/

theorem exists_ends (w : Surroundings) (is : List Item) : ∃ outcome, Ends w is outcome := by
  rcases usable_or_fails w is with his | ⟨before, item, after, report, heq, hbefore, hfails⟩
  · cases hsource : lastSource? is with
    | none => exact ⟨_, .noSource his hsource⟩
    | some source =>
      cases hvalue : Interpreter.evaluate { config := lastConfig w is } source with
      | ok v => exact ⟨_, .value his hsource hvalue⟩
      | error e => exact ⟨_, .error his hsource hvalue⟩
  · exact ⟨_, .failed heq hbefore hfails⟩

theorem run_of_usable {args : List String} (h : ∀ i ∈ items args, i.Usable w) :
    run w args =
      match lastSource? (items args) with
      | none => ⟨2, "", usage⟩
      | some source => evaluate ⟨decide (.json ∈ items args), lastConfig w (items args), some source⟩ source := by
  rw [run, readOptions_eq_foldlM, foldlM_take h, Option.or_none, Bool.false_or]
  cases lastSource? (items args) <;> rfl

/-- The items determine the outcome. -/
theorem run_of_ends {args : List String} {outcome : Outcome} (h : Ends w (items args) outcome) :
    run w args = outcome := by
  cases h with
  | failed heq hbefore hfails =>
    obtain ⟨failure, hfold, hreport⟩ := foldlM_take_of_fails hbefore hfails {}
    rw [run, readOptions_eq_foldlM, heq, hfold, ← hreport]
  | noSource his hsource => rw [run_of_usable his, hsource]
  | value his hsource hvalue =>
    rw [run_of_usable his, hsource]
    simp only [evaluate, hvalue, decide_eq_true_eq]
  | error his hsource herror =>
    rw [run_of_usable his, hsource]
    simp only [evaluate, herror]

theorem Ends.stdout_ne_empty_iff {is : List Item} {outcome : Outcome} (h : Ends w is outcome) :
    outcome.stdout ≠ "" ↔ outcome.exit = 0 := by
  cases h <;> simp

/-- The outcome of the program for every argument list, all files and whatever is said about those that are no use.  The
first configuration that has no path, or a path that cannot be read, or a text that is no configuration, ends the run
with code 1 and is all that is reported; the report names the path and passes on the reason.  Otherwise the run ends
with code 2 if there is no expression, and the last expression is evaluated under the last configuration if there is
one: its value is printed, as JSON if any flag asks for it, and the code is 0, or its error is reported and the code is
1.  So something is printed if and only if the code is 0. -/
theorem run_ends (w : Surroundings) (args : List String) :
    (∀ outcome, run w args = outcome ↔ Ends w (items args) outcome) ∧
      ((run w args).stdout ≠ "" ↔ (run w args).exit = 0) := by
  obtain ⟨outcome, hends⟩ := exists_ends w (items args)
  have hrun := run_of_ends hends
  rw [hrun]
  refine ⟨fun outcome' => ⟨fun h => h ▸ hends, fun h => ?_⟩, hends.stdout_ne_empty_iff⟩
  rw [← hrun]
  exact run_of_ends h

/-- Two files whose names are options, and two that are no configurations. -/
private def files : List (String × String) :=
  [("--json", "[0]"), ("--config", "[]"), ("list", "[1, 2]"), ("blank", "")]

private def here : Surroundings where
  file path :=
    match files.lookup path with
    | some text => .ok text
    | none => .error (if path = "/" then "Is a directory (os error 21)" else "No such file or directory (os error 2)")
  complaint text := if text = "" then "EOF while parsing a value" else "trailing characters"

private theorem usable_file {path text : String} {c : Config} (hread : here.file path = .ok text)
    (hconfig : Config.ofText? text = some c) : (Item.config (some path)).Usable here := by
  intro report h
  cases h with
  | unreadable herror =>
    rw [hread] at herror
    cases herror
  | invalidConfig htext hnone =>
    rw [hread] at htext
    cases htext
    rw [hconfig] at hnone
    cases hnone

private theorem usable_json : (Item.config (some "--json")).Usable here :=
  usable_file rfl (by cbv : Config.ofText? "[0]" = some ⟨0⟩)

private theorem usable_config : (Item.config (some "--config")).Usable here :=
  usable_file rfl (by cbv : Config.ofText? "[]" = some {})

private theorem usable_expression (source : String) : (Item.expression source).Usable here := by
  intro report h
  cases h

private def brackets : List Lexer.Piece :=
  [⟨.openBracket, "[", .nothing, .openBracket⟩, ⟨.closeBracket, "]", .nothing, .closeBracket⟩]

/-- A path that looks like an option is still a path: no flag is left in the first list, and its last configuration
overrides the limit of the one before.  Of two configurations that cannot be used the first is reported, with the reason
that was given for it. -/
theorem run_ends_swallowed :
    run here ["--config", "--json", "1", "--config", "--config", "[]"] = ⟨0, "[]\n", ""⟩ ∧
    run here ["[]", "--config", "--json"] = ⟨1, "", "EvalError: Nesting depth limit exceeded (max: 0)\n"⟩ ∧
    run here ["--config", "--json"] = ⟨2, "", usage⟩ ∧
    run here ["1", "--config", "missing", "--config"] = ⟨1, "",
      "Error: reading config file 'missing'\n\nCaused by:\n    No such file or directory (os error 2)\n"⟩ ∧
    run here ["--config", "/", "--config", "missing"] = ⟨1, "",
      "Error: reading config file '/'\n\nCaused by:\n    Is a directory (os error 21)\n"⟩ ∧
    run here ["--config", "list", "--config", "blank"] = ⟨1, "", "Error: Configuration error: trailing characters\n"⟩ ∧
    run here ["--config", "blank", "--config", "list"] =
      ⟨1, "", "Error: Configuration error: EOF while parsing a value\n"⟩ ∧
    run here ["--config", "--config", "--config"] = ⟨1, "", "Error: --config needs a file path\n"⟩ := by
  have hwrite : Lexer.Piece.write brackets = "[]" := by decide
  have htokens : Lexer.tokenize Rule.standard "[]" = .ok (Lexer.Piece.tokens 0 brackets) := by
    rw [← hwrite]
    refine Lexer.Lexes.tokenize_eq (Lexer.Piece.lexes_write ?_ fun _ _ _ => rfl)
    simp [brackets, Lexer.Piece.Separated, Lexer.isWordy]
  have hvalue : Interpreter.evaluate {} "[]" = .ok (.array []) := (Interpreter.evaluate_eq {} htokens).trans rfl
  have herror : Interpreter.evaluate { config := ⟨0⟩ } "[]" = .error (.tooDeep 0) :=
    (Interpreter.evaluate_eq { config := ⟨0⟩ } htokens).trans rfl
  have hlist : Config.ofText? "[1, 2]" = none := by cbv
  have hblank : Config.ofText? "" = none := by cbv
  refine ⟨((run_ends here _).1 _).2 ?_, ((run_ends here _).1 _).2 ?_, ((run_ends here _).1 _).2 ?_,
    ((run_ends here _).1 _).2 ?_, ((run_ends here _).1 _).2 ?_, ((run_ends here _).1 _).2 ?_,
    ((run_ends here _).1 _).2 ?_, ((run_ends here _).1 _).2 ?_⟩
  · refine Ends.value (v := .array []) ?_ rfl hvalue
    simp [items, usable_json, usable_config, usable_expression]
  · refine Ends.error (e := .tooDeep 0) ?_ rfl herror
    simp [items, usable_json, usable_expression]
  · refine .noSource ?_ rfl
    simp [items, usable_json]
  · refine @Ends.failed here _ [.expression "1"] [.config none] (.config (some "missing")) _ rfl ?_ ?_
    · simp [usable_expression]
    · simpa using @Item.Fails.unreadable here "missing" _ rfl
  · refine @Ends.failed here _ [] [.config (some "missing")] (.config (some "/")) _ rfl (by simp) ?_
    simpa using @Item.Fails.unreadable here "/" _ rfl
  · exact @Ends.failed here _ [] [.config (some "blank")] (.config (some "list")) _ rfl (by simp)
      (.invalidConfig rfl hlist)
  · exact @Ends.failed here _ [] [.config (some "list")] (.config (some "blank")) _ rfl (by simp)
      (.invalidConfig rfl hblank)
  · refine @Ends.failed here _ [.config (some "--config")] [] (.config none) _ rfl ?_ .missingPath
    simp [usable_config]

end SinglePass.CommandLine
