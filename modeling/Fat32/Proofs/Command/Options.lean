import Fat32.Proofs.Command.Sizes
import Mathlib.Data.List.Perm.Basic

/-!
# Command lines by their items

Every list of arguments is made of items in just one way: words, flags, and depth options with the
argument after them; at its end the depth option may be cut short. The items are read one by one,
and what they come to hangs on the order of the words and on that of the depths, but not on where
the options stand among the words.
-/

namespace Fat32.Command

/-! ## Items -/

def optionNames : List String := ["--max-depth", "--keep-going", "-v", "-vv"]

theorem notMem_optionNames_iff {text : String} : text ∉ optionNames ↔
    text ≠ "--max-depth" ∧ text ≠ "--keep-going" ∧ text ≠ "-v" ∧ text ≠ "-vv" := by
  simp [optionNames]

/-- A word or a flag of a command line, or its depth option with the argument after it. -/
inductive Item
  | word (text : String) (not_option : text ∉ optionNames)
  | keepGoing
  | verbose
  | veryVerbose
  | depth (value : String)
  deriving DecidableEq

namespace Item

def args : Item → List String
  | .word text _ => [text]
  | .keepGoing => ["--keep-going"]
  | .verbose => ["-v"]
  | .veryVerbose => ["-vv"]
  | .depth value => ["--max-depth", value]

def word? : Item → Option String
  | .word text _ => some text
  | .keepGoing | .verbose | .veryVerbose | .depth _ => none

def depth? : Item → Option String
  | .depth value => some value
  | .word _ _ | .keepGoing | .verbose | .veryVerbose => none

def ofArg (arg : String) (h : arg ≠ "--max-depth") : Item :=
  if hkeep : arg = "--keep-going" then .keepGoing
  else if hverbose : arg = "-v" then .verbose
  else if hvery : arg = "-vv" then .veryVerbose
  else .word arg (notMem_optionNames_iff.mpr ⟨h, hkeep, hverbose, hvery⟩)

theorem args_ofArg {arg : String} (h : arg ≠ "--max-depth") : (ofArg arg h).args = [arg] := by
  unfold ofArg
  split_ifs with hkeep hverbose hvery
  · rw [hkeep, args]
  · rw [hverbose, args]
  · rw [hvery, args]
  · rw [args]

end Item

def wordsOf (items : List Item) : List String := items.filterMap Item.word?

def depthsOf (items : List Item) : List String := items.filterMap Item.depth?

theorem wordsOf_singleton (item : Item) : wordsOf [item] = item.word?.toList := by
  cases item <;> rfl

theorem depthsOf_singleton (item : Item) : depthsOf [item] = item.depth?.toList := by
  cases item <;> rfl

/-- How often verbosity is asked for; the flag with two letters asks for it twice. -/
def verbosityOf (items : List Item) : Nat := items.count .verbose + 2 * items.count .veryVerbose

theorem verbosityOf_append (items more : List Item) :
    verbosityOf (items ++ more) = verbosityOf items + verbosityOf more := by
  rw [verbosityOf, List.count_append, List.count_append, verbosityOf, verbosityOf]
  omega

def invalidDepth? (items : List Item) : Option String :=
  (depthsOf items).find? fun value => (size? value).isNone

theorem invalidDepth?_append (items more : List Item) :
    invalidDepth? (items ++ more) = (invalidDepth? items).or (invalidDepth? more) := by
  rw [invalidDepth?, depthsOf, List.filterMap_append, List.find?_append]
  rfl

structure CommandLine where
  items : List Item
  /-- The depth option stands once more at the end, without an argument after it. -/
  cutShort : Bool
  deriving DecidableEq

namespace CommandLine

def args (line : CommandLine) : List String :=
  line.items.flatMap Item.args ++ if line.cutShort then ["--max-depth"] else []

def cons (item : Item) (line : CommandLine) : CommandLine := ⟨item :: line.items, line.cutShort⟩

theorem args_cons (item : Item) (line : CommandLine) :
    (cons item line).args = item.args ++ line.args := by
  rw [args, args, cons, List.flatMap_cons, List.append_assoc]

def ofArgs : List String → CommandLine
  | [] => ⟨[], false⟩
  | [arg] => if h : arg = "--max-depth" then ⟨[], true⟩ else ⟨[.ofArg arg h], false⟩
  | arg :: value :: rest =>
      if h : arg = "--max-depth" then cons (.depth value) (ofArgs rest)
      else cons (.ofArg arg h) (ofArgs (value :: rest))

theorem args_ofArgs (args : List String) : (ofArgs args).args = args := by
  fun_induction ofArgs args with
  | case1 => rfl
  | case2 => rfl
  | case3 arg h => simp [CommandLine.args, Item.args_ofArg]
  | case4 value rest ih => rw [args_cons, ih]; rfl
  | case5 arg value rest h ih => rw [args_cons, ih, Item.args_ofArg]; rfl

theorem ofArgs_cons {arg : String} (h : arg ≠ "--max-depth") (rest : List String) :
    ofArgs (arg :: rest) = cons (.ofArg arg h) (ofArgs rest) := by
  cases rest with
  | nil => simp [ofArgs, h, cons]
  | cons value rest => rw [ofArgs, dif_neg h]

theorem ofArgs_item (item : Item) (rest : List String) :
    ofArgs (item.args ++ rest) = cons item (ofArgs rest) := by
  cases item with
  | word text h =>
      obtain ⟨hdepth, hkeep, hverbose, hvery⟩ := notMem_optionNames_iff.mp h
      have hitem : Item.ofArg text hdepth = .word text h := by
        simp [Item.ofArg, hkeep, hverbose, hvery]
      exact (ofArgs_cons hdepth rest).trans (congrArg (cons · (ofArgs rest)) hitem)
  | keepGoing => exact ofArgs_cons (by decide) rest
  | verbose => exact ofArgs_cons (by decide) rest
  | veryVerbose => exact ofArgs_cons (by decide) rest
  | depth value => exact dif_pos rfl

theorem ofArgs_args (line : CommandLine) : ofArgs line.args = line := by
  obtain ⟨items, cutShort⟩ := line
  induction items with
  | nil => cases cutShort <;> rfl
  | cons item items ih =>
      have hline : (⟨item :: items, cutShort⟩ : CommandLine) = cons item ⟨items, cutShort⟩ := rfl
      rw [hline, args_cons, ofArgs_item, ih]

end CommandLine

/-! ## Reading -/

namespace Draft

def read (draft : Draft) : Item → Except UsageError Draft
  | .word text _ => .ok { draft with positional := draft.positional.push text }
  | .keepGoing => .ok { draft with keepGoing := true }
  | .verbose => .ok { draft with verbosity := draft.verbosity + 1 }
  | .veryVerbose => .ok { draft with verbosity := draft.verbosity + 2 }
  | .depth value =>
      match size? value with
      | none => .error (.invalidDepth value)
      | some depth => .ok { draft with maxDepth := some depth }

theorem addAll_cons (draft : Draft) {arg : String} (h : arg ≠ "--max-depth")
    (rest : List String) : draft.addAll (arg :: rest) = (draft.add arg).addAll rest := by
  cases rest with
  | nil => simp [addAll, h]
  | cons value rest => rw [addAll, if_neg h]

theorem addAll_item (draft : Draft) (item : Item) (rest : List String) :
    draft.addAll (item.args ++ rest) = (draft.read item).bind (·.addAll rest) := by
  cases item with
  | word text h =>
      obtain ⟨hdepth, hkeep, hverbose, hvery⟩ := notMem_optionNames_iff.mp h
      have hadd : draft.add text = { draft with positional := draft.positional.push text } := by
        simp [add, hkeep, hverbose, hvery]
      exact (draft.addAll_cons hdepth rest).trans (congrArg (addAll · rest) hadd)
  | keepGoing => exact draft.addAll_cons (by decide) rest
  | verbose => exact draft.addAll_cons (by decide) rest
  | veryVerbose => exact draft.addAll_cons (by decide) rest
  | depth value =>
      simp only [Item.args, List.cons_append, List.nil_append, addAll, read]
      cases size? value <;> rfl

theorem addAll_items (draft : Draft) (items : List Item) (rest : List String) :
    draft.addAll (items.flatMap Item.args ++ rest) =
      (items.foldlM read draft).bind (·.addAll rest) := by
  induction items generalizing draft with
  | nil => rfl
  | cons item items ih =>
      rw [List.flatMap_cons, List.append_assoc, addAll_item, List.foldlM_cons]
      cases draft.read item with
      | error error => rfl
      | ok next => exact ih next

def after (draft : Draft) (items : List Item) : Draft where
  positional := draft.positional ++ (wordsOf items).toArray
  maxDepth := ((depthsOf items).filterMap size?).getLast?.or draft.maxDepth
  keepGoing := draft.keepGoing || decide (.keepGoing ∈ items)
  verbosity := draft.verbosity + verbosityOf items

theorem after_append (draft : Draft) (items more : List Item) :
    draft.after (items ++ more) = (draft.after items).after more := by
  simp only [after, wordsOf, depthsOf, verbosityOf_append, List.filterMap_append,
    List.getLast?_append, List.mem_append, ← List.append_toArray, Array.append_assoc,
    Option.or_assoc, Bool.decide_or, Bool.or_assoc, Nat.add_assoc]

theorem read_eq (draft : Draft) (item : Item) : draft.read item =
    match invalidDepth? [item] with
    | some value => .error (.invalidDepth value)
    | none => .ok (draft.after [item]) := by
  cases item with
  | depth value =>
      cases hsize : size? value <;>
        simp [read, after, invalidDepth?, wordsOf_singleton, depthsOf_singleton, verbosityOf,
          Item.word?, Item.depth?, hsize]
  | word _ _ | keepGoing | verbose | veryVerbose =>
      simp [read, after, invalidDepth?, wordsOf_singleton, depthsOf_singleton, verbosityOf,
        Item.word?, Item.depth?]

theorem foldlM_read (draft : Draft) (items : List Item) : items.foldlM read draft =
    match invalidDepth? items with
    | some value => .error (.invalidDepth value)
    | none => .ok (draft.after items) := by
  induction items generalizing draft with
  | nil => simp [invalidDepth?, depthsOf, after, wordsOf, verbosityOf]; rfl
  | cons item items ih =>
      have hitems : item :: items = [item] ++ items := rfl
      rw [List.foldlM_cons, read_eq, hitems, invalidDepth?_append, after_append]
      cases invalidDepth? [item] with
      | some value => rfl
      | none => exact ih (draft.after [item])

theorem after_congr (draft : Draft) {items others : List Item} (hperm : items.Perm others)
    (hwords : wordsOf items = wordsOf others) (hdepths : depthsOf items = depthsOf others) :
    draft.after items = draft.after others := by
  simp only [after, verbosityOf, hwords, hdepths, hperm.count_eq, hperm.mem_iff]

end Draft

theorem invalidDepth?_eq_none_iff {items : List Item} :
    invalidDepth? items = none ↔ ∀ value ∈ depthsOf items, ∃ size, Writes value size := by
  rw [invalidDepth?, List.find?_eq_none]
  refine forall₂_congr fun value _ => ?_
  rw [Option.isNone_iff_eq_none, ← ne_eq, Option.ne_none_iff_exists']
  exact exists_congr fun size => size?_eq_some_iff

theorem getLast?_filterMap_size? {values : List String}
    (h : ∀ value ∈ values, ∃ size, Writes value size) :
    (values.filterMap size?).getLast? = values.getLast?.bind size? := by
  obtain rfl | ⟨earlier, last, rfl⟩ := values.eq_nil_or_concat'
  · rfl
  · obtain ⟨size, hsize⟩ := h last (List.mem_append_right _ (List.mem_singleton_self last))
    have hlast : [last].filterMap size? = [size] := by
      rw [List.filterMap_cons, size?_eq_some_iff.mpr hsize, List.filterMap_nil]
    rw [List.filterMap_append, hlast, List.getLast?_concat, List.getLast?_concat, Option.bind_some,
      size?_eq_some_iff.mpr hsize]

namespace CommandLine

theorem parse_args (line : CommandLine) : Options.parse line.args =
    match invalidDepth? line.items with
    | some value => .error (.invalidDepth value)
    | none =>
        if line.cutShort then .error .missingDepth
        else Options.ofDraft (Draft.empty.after line.items) := by
  rw [Options.parse, args, Draft.addAll_items, Draft.foldlM_read]
  cases invalidDepth? line.items with
  | some value => rfl
  | none => cases line.cutShort <;> rfl

/-- No argument stands after some depth option, or none that writes a size, or no word names an
image. -/
def IsRefused (line : CommandLine) : Prop :=
  line.cutShort = true ∨ (∃ value ∈ depthsOf line.items, ∀ size, ¬ Writes value size) ∨
    wordsOf line.items = []

structure Asks (line : CommandLine) (options : Options) : Prop where
  wordsOf_eq : wordsOf line.items = options.image :: options.words
  maxDepth_iff : ∀ depth, options.maxDepth = some depth ↔
    ∃ value, (depthsOf line.items).getLast? = some value ∧ Writes value depth
  keepGoing_iff : options.keepGoing = true ↔ .keepGoing ∈ line.items
  verbosity_eq : options.verbosity =
    line.items.count .verbose + 2 * line.items.count .veryVerbose

theorem Asks.unique {line : CommandLine} {options other : Options} (h : line.Asks options)
    (hother : line.Asks other) : options = other := by
  obtain ⟨himage, hwords⟩ := List.cons.inj (h.wordsOf_eq.symm.trans hother.wordsOf_eq)
  have hdepth : options.maxDepth = other.maxDepth :=
    Option.ext fun depth => (h.maxDepth_iff depth).trans (hother.maxDepth_iff depth).symm
  have hkeep : options.keepGoing = other.keepGoing :=
    Bool.eq_iff_iff.mpr (h.keepGoing_iff.trans hother.keepGoing_iff.symm)
  have hverbosity := h.verbosity_eq.trans hother.verbosity_eq.symm
  cases options
  cases other
  simp_all

theorem exists_asks {line : CommandLine} {image : String} {words : List String}
    (hwords : wordsOf line.items = image :: words)
    (hsizes : ∀ value ∈ depthsOf line.items, ∃ size, Writes value size) :
    ∃ options, Options.ofDraft (Draft.empty.after line.items) = .ok options ∧
      line.Asks options := by
  have hpositional : (Draft.empty.after line.items).positional.toList = image :: words := by
    simp [Draft.after, Draft.empty, hwords]
  have hdepth : (Draft.empty.after line.items).maxDepth =
      (depthsOf line.items).getLast?.bind size? := by
    simp only [Draft.after, Draft.empty, Option.or_none, getLast?_filterMap_size? hsizes]
  refine ⟨_, by rw [Options.ofDraft, hpositional], ?_⟩
  constructor
  · exact hwords
  · intro depth
    simp only [hdepth, Option.bind_eq_some_iff, size?_eq_some_iff]
  · simp [Draft.after, Draft.empty]
  · simp [Draft.after, Draft.empty, verbosityOf]

theorem parse_cases (line : CommandLine) :
    (line.IsRefused ∧ ∃ error, Options.parse line.args = .error error) ∨
      ¬ line.IsRefused ∧ ∃ options, Options.parse line.args = .ok options ∧ line.Asks options := by
  rw [parse_args]
  cases hinvalid : invalidDepth? line.items with
  | some value =>
      have hnone : size? value = none := by simpa using List.find?_some hinvalid
      have hvalue : ∀ size, ¬ Writes value size := by
        intro size hsize
        rw [size?_eq_some_iff.mpr hsize] at hnone
        contradiction
      exact .inl ⟨.inr (.inl ⟨value, List.mem_of_find?_eq_some hinvalid, hvalue⟩), _, rfl⟩
  | none =>
      have hsizes := invalidDepth?_eq_none_iff.mp hinvalid
      cases hcut : line.cutShort with
      | true => exact .inl ⟨.inl hcut, _, rfl⟩
      | false =>
          cases hwords : wordsOf line.items with
          | nil =>
              refine .inl ⟨.inr (.inr hwords), .missingImage, ?_⟩
              simp [Options.ofDraft, Draft.after, Draft.empty, hwords]
          | cons image words =>
              refine .inr ⟨?_, exists_asks hwords hsizes⟩
              rintro (hcut' | ⟨value, hvalue, hnone⟩ | hempty)
              · exact absurd (hcut.symm.trans hcut') Bool.false_ne_true
              · obtain ⟨size, hsize⟩ := hsizes value hvalue
                exact hnone size hsize
              · exact absurd (hwords.symm.trans hempty) (List.cons_ne_nil image words)

/-- The same items in another order, though the words keep theirs, and so do the depths. -/
structure Rearranges (other line : CommandLine) : Prop where
  perm : other.items.Perm line.items
  wordsOf_eq : wordsOf other.items = wordsOf line.items
  depthsOf_eq : depthsOf other.items = depthsOf line.items
  cutShort_eq : other.cutShort = line.cutShort

theorem Rearranges.parse_eq {other line : CommandLine} (h : other.Rearranges line) :
    Options.parse other.args = Options.parse line.args := by
  rw [parse_args, parse_args, h.cutShort_eq, invalidDepth?, h.depthsOf_eq,
    Draft.after_congr _ h.perm h.wordsOf_eq h.depthsOf_eq]
  rfl

end CommandLine

/-- Every list of arguments is one command line. It fails just when a depth option has no argument
after it or one that is no size, or when there is no word. Otherwise the first word is the image and
the others are the command, the last depth counts, and the flags are counted. So the same items in
another order come to the same, if the words and the depths keep theirs. -/
theorem parse_by_items :
    (∀ args, ∃! line : CommandLine, line.args = args) ∧
    ∀ line : CommandLine,
      ((∃ error, Options.parse line.args = .error error) ↔ line.IsRefused) ∧
      (∀ options, Options.parse line.args = .ok options ↔ ¬ line.IsRefused ∧ line.Asks options) ∧
      ∀ other : CommandLine, other.Rearranges line →
        Options.parse other.args = Options.parse line.args := by
  refine ⟨fun args => ⟨.ofArgs args, CommandLine.args_ofArgs args, ?_⟩,
    fun line => ⟨?_, fun options => ?_, fun other h => h.parse_eq⟩⟩
  · rintro line rfl
    exact line.ofArgs_args.symm
  · rcases line.parse_cases with ⟨hrefused, hfails⟩ | ⟨haccepted, options, hoptions, -⟩
    · exact iff_of_true hfails hrefused
    · refine iff_of_false ?_ haccepted
      rintro ⟨error, herror⟩
      exact nomatch hoptions.symm.trans herror
  · rcases line.parse_cases with ⟨hrefused, error, herror⟩ | ⟨haccepted, given, hgiven, hasks⟩
    · refine iff_of_false (fun h => ?_) fun h => h.1 hrefused
      exact nomatch h.symm.trans herror
    · constructor
      · intro h
        exact ⟨haccepted, Except.ok.inj (hgiven.symm.trans h) ▸ hasks⟩
      · rintro ⟨-, h⟩
        rw [hgiven, hasks.unique h]

/-- A command line with options before, between and after its words, and the same items in order. -/
theorem parse_by_items_scattered :
    let image : Item := .word "disk.img" (by decide)
    let command : Item := .word "ls" (by decide)
    let scattered : CommandLine := ⟨[.veryVerbose, .depth "5", image, .keepGoing, command,
      .depth "+7", .verbose], false⟩
    let ordered : CommandLine := ⟨[image, command, .depth "5", .depth "+7", .keepGoing, .verbose,
      .veryVerbose], false⟩
    ordered.Rearranges scattered ∧ ¬ scattered.IsRefused ∧
      Options.parse ordered.args = .ok ⟨"disk.img", ["ls"], some 7, true, 3⟩ ∧
      scattered.Asks ⟨"disk.img", ["ls"], some 7, true, 3⟩ := by
  intro image command scattered ordered
  have hrearranges : ordered.Rearranges scattered := ⟨by decide +kernel, rfl, rfl, rfl⟩
  have hparse : Options.parse scattered.args = .ok ⟨"disk.img", ["ls"], some 7, true, 3⟩ := by
    decide +kernel
  obtain ⟨-, hoptions, hsame⟩ := parse_by_items.2 scattered
  obtain ⟨haccepted, hasks⟩ := (hoptions _).mp hparse
  exact ⟨hrearranges, haccepted, (hsame ordered hrearranges).trans hparse, hasks⟩

/-- The depth option takes even an option as its depth. -/
example : Options.parse ["disk.img", "--max-depth", "--keep-going"] =
    .error (.invalidDepth "--keep-going") := by decide +kernel

end Fat32.Command
