import Daimonos.Framework.Keyed
import Daimonos.Framework.Text
import Daimonos.Providers.Message

namespace Daimonos.Ops

open Framework Providers

def splitWhitespace (text : String) : List String :=
  ((text.toList.splitOnP isWhitespace).filter (· ≠ [])).map String.ofList

def shellCharacters : List Char :=
  [Char.ofNat 39, Char.ofNat 34, Char.ofNat 92, '|', '&', ';', '<', '>', '$', Char.ofNat 96, '(', ')',
    Char.ofNat 123, Char.ofNat 125, '*', '?', '[', '~', '\n']

def hasShellSyntax (cmd : String) : Bool := cmd.toList.any (· ∈ shellCharacters)

def baseName (path : String) : String := String.ofList ((path.toList.splitOn '/').getLast?.getD [])

def startsWithHyphen (word : String) : Bool := word.toList.head? == some '-'

def digitsValue (digits : List Char) : Nat := digits.foldl (fun n c => 10*n + (c.toNat-48)) 0

def parseI64 (word : String) : Option Int :=
  let (negative, digits) :=
    match word.toList with
    | '-' :: digits => (true, digits)
    | '+' :: digits => (false, digits)
    | digits => (false, digits)
  let n : Int := if negative then -(digitsValue digits : Int) else digitsValue digits
  if digits ≠ [] ∧ digits.all Char.isDigit ∧ -2 ^ 63 ≤ n ∧ n < 2 ^ 63 then some n else none

abbrev PluginArgs := List (String × Value)

/-- What an argument loop does at a word. -/
inductive Rule where
  /-- the word alone sets a field -/
  | flag (slot : String) (value : Value)
  /-- the next word is the text of a field; other fields may be set with it -/
  | option (slot : String) (also : PluginArgs)
  /-- the next word is the number of a field, or is skipped -/
  | number (slot : String)
  /-- the word itself is the text of a field -/
  | operand (slot : String)
  /-- the word itself is the number of a field, or is skipped -/
  | numericOperand (slot : String)
  /-- the rest, if there is one, is the text of a field -/
  | restJoined (slot : String)
  /-- the next word, if there is one, is the text of a field, and the loop ends -/
  | restFirst (slot : String)

/-- A part of the command line, made of one or more words, that one round of a loop goes over. -/
inductive Item where
  | flag (word slot : String) (value : Value)
  | option (word slot : String) (also : PluginArgs) (value : String)
  | number (word slot value : String)
  | operand (slot word : String)
  | numericOperand (slot word : String)
  | joined (word slot : String) (values : List String)
  | first (word slot : String) (values : List String)

namespace Item

def words : Item → List String
  | flag word _ _ => [word]
  | option word _ _ value => [word, value]
  | number word _ value => [word, value]
  | operand _ word => [word]
  | numericOperand _ word => [word]
  | joined word _ values => word::values
  | first word _ values => word::values

def settings : Item → PluginArgs
  | flag _ slot value => [(slot, value)]
  | option _ slot also value => (slot, .string value) :: also
  | number _ slot value => ((parseI64 value).map fun n => (slot, Value.number n)).toList
  | operand slot word => [(slot, .string word)]
  | numericOperand slot word => ((parseI64 word).map fun n => (slot, Value.number n)).toList
  | joined _ slot values => if values = [] then [] else [(slot, .string (" ".intercalate values))]
  | first _ slot values => (values.head?.map fun value => (slot, Value.string value)).toList

end Item

/-- One round of a loop; `rule` is given a word and whether there is another, and tells what to do or
that the command is not for the plugin. -/
def takeItem (rule : String → Bool → Option Rule) (word : String) (rest : List String) :
    Option (Item × List String) :=
  match rule word (!rest.isEmpty), rest with
  | some (.flag slot value), rest => some (.flag word slot value, rest)
  | some (.option slot also), value::rest => some (.option word slot also value, rest)
  | some (.number slot), value::rest => some (.number word slot value, rest)
  | some (.operand slot), rest => some (.operand slot word, rest)
  | some (.numericOperand slot), rest => some (.numericOperand slot word, rest)
  | some (.restJoined slot), rest => some (.joined word slot rest, [])
  | some (.restFirst slot), rest => some (.first word slot rest, [])
  | _, _ => none

def setFields (settings args : PluginArgs) : PluginArgs :=
  settings.foldl (fun l c => storeKey c.1 c.2 l) args

/-- The loop; every round uses up a word, so the number of words is fuel enough. -/
def parseWords (rule : String → Bool → Option Rule) :
    Nat → List String → PluginArgs → Option PluginArgs
  | _, [], args => some args
  | 0, _::_, _ => none
  | fuel+1, word::rest, args =>
    match takeItem rule word rest with
    | none => none
    | some (item, left) => parseWords rule fuel left (setFields item.settings args)

structure Target where
  tool : String
  command : String
  rest : List String
  rule : String → Bool → Option Rule

structure PluginCall where
  tool : String
  command : String
  extra : Option PluginArgs

def Target.call (target : Target) : Option PluginCall :=
  (parseWords target.rule target.rest.length target.rest []).map fun args =>
    ⟨target.tool,target.command,if args.isEmpty then none else some args⟩

def cargoRule (subcommand word : String) (more : Bool) : Option Rule :=
  if word ∈ ["--package", "-p"] ∧ more then some (.option "package" [])
  else if word = "--lib" then some (.flag "lib" (.bool true))
  else if word = "--check" ∧ subcommand = "fmt" then some (.flag "check" (.bool true))
  else if word = "--release" ∧ subcommand = "build" then some (.flag "release" (.bool true))
  else if word = "--" then some (.restJoined "filter")
  else none

def cargoTarget : List String → Option Target
  | [] => none
  | subcommand::rest =>
    if subcommand ∈ ["test", "build", "check", "clippy", "fmt", "add"] then
      some ⟨"cargo",subcommand,rest,cargoRule subcommand⟩
    else none

def gitRule (subcommand word : String) (more : Bool) : Option Rule :=
  if word ∈ ["-n", "--max-count"] ∧ more then some (.number "limit")
  else if word = "--oneline" then some (.flag "oneline" (.bool true))
  else if word ∈ ["--staged", "--cached"] then some (.flag "mode" (.string "staged"))
  else if word = "-m" ∧ more then some (.option "message" [])
  else if word ∈ ["-a", "--all"] ∧ subcommand = "commit" then some (.flag "all" (.bool true))
  else if word = "-b" ∧ subcommand = "checkout" ∧ more then
    some (.option "branch" [("create", .bool true)])
  else if word = "--" then some (.restFirst "path")
  else if startsWithHyphen word then none
  else if subcommand = "checkout" then some (.operand "branch")
  else if subcommand = "add" then some (.operand "path")
  else none

def gitTarget : List String → Option Target
  | [] => none
  | subcommand::rest =>
    if subcommand ∈
        ["status", "log", "diff", "branch", "add", "commit", "push", "pull", "checkout"] then
      some ⟨"git",subcommand,rest,gitRule subcommand⟩
    else none

def ghRule (command word : String) (more : Bool) : Option Rule :=
  if word = "--state" ∧ more then some (.option "state" [])
  else if word = "--limit" ∧ more then some (.number "limit")
  else if word = "--author" ∧ more then some (.option "author" [])
  else if word = "--method" ∧ more ∧ command = "api" then some (.option "method" [])
  else if startsWithHyphen word then none
  else if command = "api" then some (.operand "endpoint")
  else some (.numericOperand "number")

def ghTarget : List String → Option Target
  | "pr" :: "view" :: rest => some ⟨"gh","pr_view",rest,ghRule "pr_view"⟩
  | "pr" :: "list" :: rest => some ⟨"gh","pr_list",rest,ghRule "pr_list"⟩
  | "pr" :: "diff" :: rest => some ⟨"gh","pr_diff",rest,ghRule "pr_diff"⟩
  | "pr" :: "checks" :: rest => some ⟨"gh","pr_checks",rest,ghRule "pr_checks"⟩
  | "pr" :: "create" :: rest => some ⟨"gh","pr_create",rest,ghRule "pr_create"⟩
  | "api" :: rest => some ⟨"gh","api",rest,ghRule "api"⟩
  | _ => none

def dockerRule (command word : String) (more : Bool) : Option Rule :=
  if word ∈ ["--tail", "-n"] ∧ more then some (.number "tail")
  else if word = "-f" ∧ more ∧ command ∈ ["compose_up", "compose_down", "compose_ps"] then
    some (.option "file" [])
  else if word = "-d" ∧ command = "compose_up" then some (.flag "detach" (.bool true))
  else if startsWithHyphen word then none
  else some (.operand "container")

def dockerTarget : List String → Option Target
  | "compose" :: "up" :: rest => some ⟨"docker","compose_up",rest,dockerRule "compose_up"⟩
  | "compose" :: "down" :: rest => some ⟨"docker","compose_down",rest,dockerRule "compose_down"⟩
  | "compose" :: "ps" :: rest => some ⟨"docker","compose_ps",rest,dockerRule "compose_ps"⟩
  | subcommand::rest =>
    if subcommand ∈ ["ps", "images", "logs", "stop", "inspect"] then
      some ⟨"docker",subcommand,rest,dockerRule subcommand⟩
    else none
  | [] => none

def pluginTarget : List String → Option Target
  | [] => none
  | word::rest =>
    match baseName word with
    | "cargo" => cargoTarget rest
    | "git" => gitTarget rest
    | "gh" => ghTarget rest
    | "docker" => dockerTarget rest
    | _ => none

def tryPluginRedirect (fullCmd : String) : Option PluginCall :=
  (pluginTarget (splitWhitespace fullCmd)).bind Target.call

structure ExecEnv where
  execPluginRedirect : Bool
  toolRegistry : Bool
  onProgress : Bool

inductive Execution where
  | plugin (call : PluginCall)
  | literal (cmd : String) (args : List String)

/-- How a command is run; the registry answers a plugin call also when the plugin fails. -/
def exec (env : ExecEnv) (cmd : String) (args : List String) : Execution :=
  if env.execPluginRedirect && env.toolRegistry && !env.onProgress && args.isEmpty &&
      !hasShellSyntax cmd then
    match tryPluginRedirect cmd with
    | some call => .plugin call
    | none => .literal cmd args
  else .literal cmd args

namespace Item

def CarriedBy (args : PluginArgs) : Item → Prop
  | flag _ slot value => lookupKey slot args = some value
  | option _ slot also value =>
    lookupKey slot args = some (.string value) ∧ ∀ c∈also, lookupKey c.1 args = some c.2
  | number _ slot value => ∃ n, parseI64 value = some n ∧ lookupKey slot args = some (.number n)
  | operand slot word => lookupKey slot args = some (.string word)
  | numericOperand slot word =>
    ∃ n, parseI64 word = some n ∧ lookupKey slot args = some (.number n)
  | joined _ slot values =>
    values ≠ [] ∧ lookupKey slot args = some (.string (" ".intercalate values))
  | first _ slot values => ∃ value, values = [value] ∧ lookupKey slot args = some (.string value)

def Complete : Item → Prop
  | number _ _ value => (parseI64 value).isSome = true
  | numericOperand _ word => (parseI64 word).isSome = true
  | joined _ _ values => values ≠ []
  | first _ _ values => values.length=1
  | flag .. | option .. | operand .. => True

theorem carriedBy_iff (args : PluginArgs) (item : Item) :
    item.CarriedBy args ↔
      item.Complete ∧ ∀ c∈item.settings, lookupKey c.1 args = some c.2 := by
  cases item with
  | flag | option => simp [CarriedBy,Complete,settings]
  | number word slot value =>
    cases h : parseI64 value <;> simp [CarriedBy,Complete,settings,h]
  | operand => simp [CarriedBy,Complete,settings]
  | numericOperand slot word =>
    cases h : parseI64 word <;> simp [CarriedBy,Complete,settings,h]
  | joined word slot values =>
    by_cases h : values = [] <;> simp [CarriedBy,Complete,settings,h]
  | first word slot values =>
    cases values with
    | nil => simp [CarriedBy,Complete]
    | cons value values =>
      cases values with
      | nil => simp [CarriedBy,Complete,settings]
      | cons other values => simp [CarriedBy,Complete]

end Item

def readWords (rule : String → Bool → Option Rule) : Nat → List String → Option (List Item)
  | _, [] => some []
  | 0, _::_ => none
  | fuel+1, word::rest =>
    match takeItem rule word rest with
    | none => none
    | some (item, left) => (readWords rule fuel left).map (item :: ·)

def Item.valueField : Item → Option String
  | .flag .. => none
  | .option _ slot _ _ | .number _ slot _ | .operand slot _ | .numericOperand slot _
  | .joined _ slot _ | .first _ slot _ => some slot

def Reads (words : List String) (target : Target) (items : List Item) : Prop :=
  pluginTarget words = some target ∧
    readWords target.rule target.rest.length target.rest = some items

/-- Every word of the command line is in the call, and no value in the place of another. -/
def Carries (call : PluginCall) (words : List String) : Prop :=
  ∃ target items, Reads words target items ∧ items.flatMap Item.words = target.rest ∧
    call.tool=target.tool ∧ call.command=target.command ∧
    (∀ item∈items, item.CarriedBy (call.extra.getD [])) ∧
    (items.filterMap Item.valueField).Nodup

/-- The words can be carried: every item is complete, no field is given a value twice, and no two
items want different values in one. -/
def Carriable (words : List String) : Prop :=
  ∀ target items, Reads words target items →
    (∀ item∈items, item.Complete) ∧ (items.filterMap Item.valueField).Nodup ∧
    ∀ c ∈ items.flatMap Item.settings, ∀ d ∈ items.flatMap Item.settings, c.1=d.1 → c.2=d.2

section Carrying

theorem takeItem_words {rule : String → Bool → Option Rule} {word : String} {rest left : List String}
    {item : Item} (h : takeItem rule word rest = some (item, left)) :
    item.words++left=word::rest := by
  unfold takeItem at h
  split at h <;> cases h <;> simp [Item.words]

theorem flatMap_words_of_readWords (rule : String → Bool → Option Rule) (fuel : Nat)
    {words : List String} {items : List Item} (h : readWords rule fuel words = some items) :
    items.flatMap Item.words = words := by
  induction fuel generalizing words items with
  | zero =>
    cases words with
    | nil =>
      cases h
      rfl
    | cons word rest => cases h
  | succ fuel ih =>
    cases words with
    | nil =>
      cases h
      rfl
    | cons word rest =>
      rw [readWords] at h
      cases hitem : takeItem rule word rest with
      | none =>
        rw [hitem] at h
        cases h
      | some taken =>
        rw [hitem] at h
        obtain ⟨others,hothers,rfl⟩ := Option.map_eq_some_iff.mp h
        rw [List.flatMap_cons,ih hothers,takeItem_words hitem]

theorem parseWords_eq (rule : String → Bool → Option Rule) (fuel : Nat) (words : List String)
    (args : PluginArgs) :
    parseWords rule fuel words args =
      (readWords rule fuel words).map fun items => setFields (items.flatMap Item.settings) args := by
  induction fuel generalizing words args with
  | zero => cases words <;> rfl
  | succ fuel ih =>
    cases words with
    | nil => rfl
    | cons word rest =>
      rw [parseWords,readWords]
      cases hitem : takeItem rule word rest with
      | none => rfl
      | some taken =>
        simp only [ih,Option.map_map]
        congr 1
        funext items
        simp [setFields,List.foldl_append]

theorem call_eq {words : List String} {target : Target} (htarget : pluginTarget words = some target)
    {call : PluginCall} (hcall : target.call = some call) :
    ∃ items, Reads words target items ∧ call.tool=target.tool ∧ call.command=target.command ∧
      call.extra.getD [] = setFields (items.flatMap Item.settings) [] := by
  rw [Target.call,parseWords_eq,Option.map_map] at hcall
  obtain ⟨items,hitems,rfl⟩ := Option.map_eq_some_iff.mp hcall
  refine ⟨items,⟨htarget,hitems⟩,rfl,rfl,?_⟩
  simp only [Function.comp_apply]
  split_ifs with hempty
  · rw [List.isEmpty_iff.mp hempty,Option.getD_none]
  · rfl

theorem reads_unique {words : List String} {target other : Target} {items others : List Item}
    (h : Reads words target items) (h' : Reads words other others) :
    other=target ∧ others=items := by
  obtain ⟨htarget,hitems⟩ := h
  obtain ⟨htarget',hitems'⟩ := h'
  rw [htarget] at htarget'
  cases htarget'
  rw [hitems] at hitems'
  cases hitems'
  exact ⟨rfl,rfl⟩

theorem carriedBy_setFields_iff (items : List Item) :
    (∀ item∈items, item.CarriedBy (setFields (items.flatMap Item.settings) [])) ↔
      (∀ item∈items, item.Complete) ∧
      ∀ c ∈ items.flatMap Item.settings, ∀ d ∈ items.flatMap Item.settings,
        c.1=d.1 → c.2=d.2 := by
  have hkept := settings_kept_iff (items.flatMap Item.settings)
  simp only [Item.carriedBy_iff]
  constructor
  · intro hall
    refine ⟨fun item hitem => (hall item hitem).1,hkept.mp fun c hc => ?_⟩
    obtain ⟨item,hitem,hset⟩ := List.mem_flatMap.mp hc
    exact (hall item hitem).2 c hset
  · rintro ⟨hcomplete,hagree⟩ item hitem
    refine ⟨hcomplete item hitem,fun c hc => hkept.mpr hagree c ?_⟩
    exact List.mem_flatMap.mpr ⟨item,hitem,hc⟩

/-- A redirected command line is in the call, unless a field would have to hold two values, a number
is none, or a separator announces nothing or too much. -/
theorem redirect_carries_iff (env : ExecEnv) (cmd : String) (args : List String) {call : PluginCall}
    (h : exec env cmd args = .plugin call) :
    Carries call (splitWhitespace cmd) ↔ Carriable (splitWhitespace cmd) := by
  have hredirect : tryPluginRedirect cmd = some call := by
    unfold exec at h
    split_ifs at h
    split at h
    · cases h
      assumption
    · cases h
  obtain ⟨target,htarget,hcall⟩ := Option.bind_eq_some_iff.mp hredirect
  obtain ⟨items,hreads,htool,hcommand,hextra⟩ := call_eq htarget hcall
  constructor
  · rintro ⟨target',items',hreads',-,-,-,hcarried,honce⟩ target'' items'' hreads''
    obtain ⟨-,rfl⟩ := reads_unique hreads hreads'
    obtain ⟨-,rfl⟩ := reads_unique hreads hreads''
    rw [hextra,carriedBy_setFields_iff] at hcarried
    exact ⟨hcarried.1,honce,hcarried.2⟩
  · intro hcan
    obtain ⟨hcomplete,honce,hagree⟩ := hcan target items hreads
    refine ⟨target,items,hreads,flatMap_words_of_readWords _ _ hreads.2,htool,hcommand,?_,
      honce⟩
    rw [hextra,carriedBy_setFields_iff]
    exact ⟨hcomplete,hagree⟩

/-- A commit carries its message. -/
theorem redirect_commit_carried :
    exec ⟨true,true,false⟩ "git commit -m x" [] =
        .plugin ⟨"git","commit",some [("message", .string "x")]⟩ ∧
      Carries ⟨"git","commit",some [("message", .string "x")]⟩
        (splitWhitespace "git commit -m x") := by
  have hexec : exec ⟨true,true,false⟩ "git commit -m x" [] =
      .plugin ⟨"git","commit",some [("message", .string "x")]⟩ := by rfl
  refine ⟨hexec,(redirect_carries_iff _ _ _ hexec).mpr ?_⟩
  have hreads : Reads (splitWhitespace "git commit -m x")
      ⟨"git","commit",["-m", "x"],gitRule "commit"⟩ [.option "-m" "message" [] "x"] := ⟨rfl,rfl⟩
  intro target items h
  obtain ⟨-,rfl⟩ := reads_unique hreads h
  simp [Item.Complete,Item.valueField,Item.settings]

/-- Of two paths to be added the plugin is told the second. -/
theorem add_paths_dropped :
    ∃ call, exec ⟨true,true,false⟩ "git add a b" [] = .plugin call ∧
      call.extra = some [("path", .string "b")] ∧
      ¬ Carries call (splitWhitespace "git add a b") := by
  refine ⟨⟨"git","add",some [("path", .string "b")]⟩,rfl,rfl,?_⟩
  have hreads : Reads (splitWhitespace "git add a b")
      ⟨"git","add",["a", "b"],gitRule "add"⟩ [.operand "path" "a", .operand "path" "b"] :=
    ⟨rfl,rfl⟩
  rintro ⟨target,items,h,-,-,-,hcarried,-⟩
  obtain ⟨-,rfl⟩ := reads_unique hreads h
  have hpath := hcarried (.operand "path" "a") (by simp)
  simp [Item.CarriedBy,lookupKey] at hpath

end Carrying

end Daimonos.Ops
