import Mathlib.Data.List.Induction
import Mathlib.Data.Nat.Digits.Defs
import PostLisp.Command.Invocation

/-!
# The grammar of the command line

A command line is a list of items, each of one or two words (`Invocation.Item`): a flag that
switches off remembering calls, a flag with the numeral of a depth limit behind it, or the path of a
program.  Numerals of sizes have a grammar of their own (`Number.SizeNumeral`), and what is read as
a size is just what one of them writes (`Number.readSize?_eq_some_iff`).

No word that belongs to a flag can be taken for another item, so a list of words is cut into items
in one way at most (`Invocation.flatMap_words_inj`).  The words of some items lead to what the items
say, whatever items they are (`Invocation.ofArgsFrom_words`), and other words lead to an error
(`Invocation.exists_items`).  Hence an invocation is read from just the lists that are cut into
items with one path among them, and items may change places as long as the limits keep their order
(`Invocation.ofArgs_items`).
-/

namespace PostLisp

/-! ### Numerals of sizes -/

namespace Number

/-- The number that decimal digits denote, the first digit weighing most. -/
def decimalValue (ds : List (Fin 10)) : Nat := Nat.ofDigits 10 (ds.reverse.map Fin.val)

/-- The digits as they are written. -/
def digitChars (ds : List (Fin 10)) : List Char := ds.map fun d : Fin 10 => Nat.digitChar d

/-- How a size is written: decimal digits, at least one and as many zeros in front as one likes,
and perhaps a plus before them.  Sizes are words of 64 bits. -/
structure SizeNumeral where
  plus : Bool
  digits : List (Fin 10)
  digits_ne_nil : digits ≠ []
  fits : decimalValue digits < 2 ^ 64
  deriving DecidableEq

namespace SizeNumeral

def value (n : SizeNumeral) : Nat := decimalValue n.digits

def text (n : SizeNumeral) : String :=
  String.ofList ((if n.plus then ['+'] else []) ++ digitChars n.digits)

theorem toList_text (n : SizeNumeral) :
    n.text.toList = (if n.plus then ['+'] else []) ++ digitChars n.digits := String.toList_ofList

end SizeNumeral

theorem isDigit_digitChar (d : Fin 10) : (Nat.digitChar d).isDigit = true := by decide +revert

theorem digitValue_digitChar (d : Fin 10) : digitValue (Nat.digitChar d) = d := by decide +revert

theorem eq_digitChar {c : Char} (h : c.isDigit = true) : ∃ d : Fin 10, c = Nat.digitChar d := by
  obtain ⟨hLow, hHigh⟩ : 48 ≤ c.toNat ∧ c.toNat ≤ 57 := Char.isDigit_iff_toNat.1 h
  have hLess : c.toNat - 48 < 10 := by omega
  refine ⟨⟨c.toNat - 48, hLess⟩, Char.toNat_inj.1 ?_⟩
  rw [Nat.toNat_digitChar_of_lt_ten hLess]
  omega

theorem digitChars_injective : Function.Injective digitChars := by
  intro ds es h
  refine (List.map_inj_right fun d e hSame => Fin.ext ?_).1 h
  rw [← digitValue_digitChar d, ← digitValue_digitChar e]
  exact congrArg digitValue hSame

theorem exists_digitChars {cs : List Char} (h : ∀ c ∈ cs, c.isDigit = true) :
    ∃ ds, digitChars ds = cs := by
  induction cs with
  | nil => exact ⟨[], rfl⟩
  | cons c cs ih =>
    obtain ⟨hFirst, hRest⟩ := List.forall_mem_cons.1 h
    obtain ⟨d, rfl⟩ := eq_digitChar hFirst
    obtain ⟨ds, rfl⟩ := ih hRest
    exact ⟨d :: ds, rfl⟩

theorem isDigit_of_mem_digitChars {ds : List (Fin 10)} {c : Char} (h : c ∈ digitChars ds) :
    c.isDigit = true := by
  obtain ⟨d, -, rfl⟩ := List.mem_map.1 h
  exact isDigit_digitChar d

theorem digitChars_eq_nil {ds : List (Fin 10)} : digitChars ds = [] ↔ ds = [] :=
  List.map_eq_nil_iff

/-- Reading from the first digit on gives what the digits denote. -/
theorem ofDigits_digitChars (ds : List (Fin 10)) : ofDigits (digitChars ds) = decimalValue ds := by
  induction ds using List.reverseRecOn with
  | nil => rfl
  | append_singleton ds d ih =>
    have hLast : ofDigits (digitChars (ds ++ [d])) = 10 * ofDigits (digitChars ds) + d := by
      rw [digitChars, List.map_append, List.map_singleton, ofDigits_concat, digitValue_digitChar]
      rfl
    rw [hLast, ih, decimalValue, decimalValue, List.reverse_concat, List.map_cons,
      Nat.ofDigits_cons, Nat.add_comm]

/-- A natural number is read from digits, at least one, and from nothing else. -/
theorem natural?_eq_some_iff_digits {cs : List Char} {n : Nat} :
    natural? cs = some n ↔ ∃ ds ≠ [], digitChars ds = cs ∧ decimalValue ds = n := by
  rw [natural?]
  split
  · rename_i hBad
    refine iff_of_false nofun ?_
    rintro ⟨ds, hSome, rfl, -⟩
    have hAll : (digitChars ds).all Char.isDigit = true :=
      List.all_eq_true.2 fun _ => isDigit_of_mem_digitChars
    rw [hAll, Bool.not_true, Bool.or_false, List.isEmpty_iff, digitChars_eq_nil] at hBad
    exact hSome hBad
  · rename_i hGood
    obtain ⟨hSome, hAll⟩ : cs ≠ [] ∧ ∀ c ∈ cs, c.isDigit = true := by simpa using hGood
    obtain ⟨ds, rfl⟩ := exists_digitChars hAll
    rw [ofDigits_digitChars, Option.some_inj]
    constructor
    · exact fun hValue => ⟨ds, mt digitChars_eq_nil.2 hSome, rfl, hValue⟩
    · rintro ⟨es, -, hSame, hValue⟩
      rwa [← digitChars_injective hSame]

/-- A plus is no digit. -/
theorem digitChars_ne_plus (ds : List (Fin 10)) (cs : List Char) : digitChars ds ≠ '+' :: cs := by
  intro h
  exact absurd (isDigit_of_mem_digitChars (h ▸ List.mem_cons_self)) (by decide)

/-- **A size is read from what its numerals write**, and from nothing else. -/
theorem readSize?_eq_some_iff {cs : List Char} {size : Nat} :
    readSize? cs = some size ↔ ∃ n : SizeNumeral, n.text.toList = cs ∧ n.value = size := by
  rw [readSize?.eq_def]
  dsimp only
  rw [Option.filter_eq_some_iff, natural?_eq_some_iff_digits, decide_eq_true_eq]
  constructor
  · rintro ⟨⟨ds, hSome, hDigits, rfl⟩, hFits⟩
    split at hDigits
    · refine ⟨⟨true, ds, hSome, hFits⟩, ?_, rfl⟩
      rw [SizeNumeral.toList_text, ← hDigits]
      rfl
    · exact ⟨⟨false, ds, hSome, hFits⟩, (SizeNumeral.toList_text _).trans hDigits, rfl⟩
  · rintro ⟨n, rfl, rfl⟩
    refine ⟨⟨n.digits, n.digits_ne_nil, ?_, rfl⟩, n.fits⟩
    rw [n.toList_text]
    cases n.plus
    · split
      · rename_i hPlus
        exact absurd hPlus (digitChars_ne_plus _ _)
      · rfl
    · rfl

theorem SizeNumeral.text_injective : Function.Injective SizeNumeral.text := by
  rintro ⟨p, ds, hSome, hFits⟩ ⟨q, es, hSome', hFits'⟩ h
  have hChars := String.ofList_injective h
  obtain ⟨rfl, hDigits⟩ : p = q ∧ digitChars ds = digitChars es := by
    cases p <;> cases q
    · exact ⟨rfl, hChars⟩
    · exact absurd hChars (digitChars_ne_plus ds _)
    · exact absurd hChars.symm (digitChars_ne_plus es _)
    · exact ⟨rfl, List.cons_inj_right _ |>.1 hChars⟩
  obtain rfl := digitChars_injective hDigits
  rfl

end Number

namespace Invocation

/-! ### Items -/

/-- What a command line is made of.  The name of a path does not begin with two dashes. -/
inductive Item where
  | noMemo
  | maxDepth (limit : Number.SizeNumeral)
  | path (name : String) (plain : ¬"--".toList <+: name.toList)
  deriving DecidableEq

namespace Item

def words : Item → List String
  | .noMemo => ["--no-memo"]
  | .maxDepth limit => ["--max-depth", limit.text]
  | .path name _ => [name]

def limit? : Item → Option Nat
  | .maxDepth limit => some limit.value
  | _ => none

def path? : Item → Option String
  | .path name _ => some name
  | _ => none

/-- What an item makes of the options. -/
def adjust (o : Options) : Item → Options
  | .noMemo => { o with memoize := false }
  | .maxDepth limit => { o with maxDepth := limit.value }
  | .path _ _ => o

end Item

variable {args rest rest' : List String} {paths paths' : List String} {items items' : List Item}
  {options : Options} {i : Invocation}

/-! ### Words are cut into items in one way -/

theorem words_ne_nil (item : Item) : item.words ≠ [] := by
  cases item <;> exact List.cons_ne_nil _ _

theorem ne_flags_of_plain {name : String} (plain : ¬"--".toList <+: name.toList) :
    name ≠ "--no-memo" ∧ name ≠ "--max-depth" := by
  constructor <;> rintro rfl <;> exact plain (by decide)

/-- The first word tells what the item is, and the numeral behind it tells which limit. -/
theorem words_append_inj {item item' : Item} (h : item.words ++ rest = item'.words ++ rest') :
    item = item' ∧ rest = rest' := by
  have hFlags : "--no-memo" ≠ "--max-depth" := by decide
  cases item with
  | noMemo =>
    cases item' with
    | noMemo => exact ⟨rfl, (List.cons.inj h).2⟩
    | maxDepth _ => exact absurd (List.cons.inj h).1 hFlags
    | path _ plain => exact absurd (List.cons.inj h).1.symm (ne_flags_of_plain plain).1
  | maxDepth limit =>
    cases item' with
    | noMemo => exact absurd (List.cons.inj h).1 hFlags.symm
    | maxDepth limit' =>
      obtain ⟨hText, hRest⟩ := List.cons.inj (List.cons.inj h).2
      exact ⟨congrArg _ (Number.SizeNumeral.text_injective hText), hRest⟩
    | path _ plain => exact absurd (List.cons.inj h).1.symm (ne_flags_of_plain plain).2
  | path name plain =>
    cases item' with
    | noMemo => exact absurd (List.cons.inj h).1 (ne_flags_of_plain plain).1
    | maxDepth _ => exact absurd (List.cons.inj h).1 (ne_flags_of_plain plain).2
    | path name' _ =>
      obtain ⟨rfl, hRest⟩ := List.cons.inj h
      exact ⟨rfl, hRest⟩

/-- **A command line is cut into items in one way at most.** -/
theorem flatMap_words_inj (h : items.flatMap Item.words = items'.flatMap Item.words) :
    items = items' := by
  induction items generalizing items' with
  | nil =>
    cases items' with
    | nil => rfl
    | cons item' items' => exact absurd (List.append_eq_nil_iff.1 h.symm).1 (words_ne_nil item')
  | cons item items ih =>
    cases items' with
    | nil => exact absurd (List.append_eq_nil_iff.1 h).1 (words_ne_nil item)
    | cons item' items' =>
      obtain ⟨rfl, hRest⟩ := words_append_inj h
      rw [ih hRest]

/-! ### What the words of items lead to -/

/-- What is asked for by the options and all the paths that are given. -/
def conclude (options : Options) : List String → Except UsageError Invocation
  | [] => .error .pathMissing
  | [path] => .ok ⟨path, options⟩
  | _ :: _ :: _ => .error .secondPath

theorem isFlag_iff {arg : String} : isFlag arg ↔ "--".toList <+: arg.toList :=
  List.isPrefixOf_iff_prefix

section Step

variable (options : Options) (path : Option String) (args : List String)

theorem ofArgsFrom_noMemo : ofArgsFrom options path ("--no-memo" :: args) =
    ofArgsFrom { options with memoize := false } path args := by
  rw [ofArgsFrom.eq_def]
  exact if_pos rfl

theorem ofArgsFrom_maxDepth (limit : Number.SizeNumeral) :
    ofArgsFrom options path ("--max-depth" :: limit.text :: args) =
      ofArgsFrom { options with maxDepth := limit.value } path args := by
  rw [ofArgsFrom.eq_def]
  dsimp only
  rw [if_neg (by decide), if_pos (by rfl), Number.readSize?_eq_some_iff.2 ⟨limit, rfl, rfl⟩]

theorem ofArgsFrom_path {name : String} (plain : ¬"--".toList <+: name.toList) :
    ofArgsFrom options path (name :: args) =
      if path.isSome then .error .secondPath else ofArgsFrom options (some name) args := by
  obtain ⟨hNotNoMemo, hNotMaxDepth⟩ : name ≠ noMemoFlag ∧ name ≠ maxDepthFlag :=
    ne_flags_of_plain plain
  rw [ofArgsFrom.eq_def]
  dsimp only
  rw [if_neg hNotNoMemo, if_neg hNotMaxDepth, if_neg (mt isFlag_iff.1 plain)]

end Step

/-- **The words of items lead to what the items say**: each changes the options in its turn, and the
paths are counted. -/
theorem ofArgsFrom_words (items : List Item) (options : Options) (path : Option String) :
    ofArgsFrom options path (items.flatMap Item.words) =
      conclude (items.foldl Item.adjust options) (path.toList ++ items.filterMap Item.path?) := by
  induction items generalizing options path with
  | nil => cases path <;> rfl
  | cons item items ih =>
    rw [List.flatMap_cons, List.foldl_cons]
    cases item with
    | noMemo => exact (ofArgsFrom_noMemo options path _).trans (ih _ _)
    | maxDepth limit => exact (ofArgsFrom_maxDepth options path _ limit).trans (ih _ _)
    | path name plain =>
      refine (ofArgsFrom_path options path _ plain).trans ?_
      cases path with
      | none => exact ih options (some name)
      | some first => rfl

/-- **What leads to an invocation is cut into items.** -/
theorem exists_items {path : Option String} (h : ofArgsFrom options path args = .ok i) :
    ∃ items : List Item, items.flatMap Item.words = args := by
  -- each turn that goes on takes the words of one item, every other turn ends in an error
  fun_induction ofArgsFrom options path args with
  | case1 | case2 => exact ⟨[], rfl⟩
  | case3 options path args ih =>
    obtain ⟨items, rfl⟩ := ih h
    exact ⟨.noMemo :: items, rfl⟩
  | case4 | case6 | case7 | case8 => cases h
  | case5 options path depth args limit hRead _ ih =>
    obtain ⟨items, rfl⟩ := ih h
    obtain ⟨numeral, hText, -⟩ := Number.readSize?_eq_some_iff.1 hRead
    obtain rfl := String.toList_inj.1 hText
    exact ⟨.maxDepth numeral :: items, rfl⟩
  | case9 options path name args _ _ hNotFlag _ ih =>
    obtain ⟨items, rfl⟩ := ih h
    exact ⟨.path name (mt isFlag_iff.2 hNotFlag) :: items, rfl⟩

/-! ### What the items say -/

theorem conclude_eq_ok_iff :
    conclude options paths = .ok i ↔ paths = [i.path] ∧ i.options = options := by
  obtain ⟨path, asked⟩ := i
  match paths with
  | [] => simp [conclude]
  | [first] => simp [conclude, eq_comm]
  | first :: second :: others => simp [conclude]

/-- Only a single path matters, and it has no others to change places with. -/
theorem conclude_perm (h : paths.Perm paths') :
    conclude options paths = conclude options paths' := by
  match paths, paths', h.length_eq with
  | [], [], _ => rfl
  | [path], [path'], _ => rw [List.singleton_perm_singleton.1 h]
  | _ :: _ :: _, _ :: _ :: _, _ => rfl

theorem memoize_foldl_adjust : (items.foldl Item.adjust options).memoize = false ↔
    options.memoize = false ∨ .noMemo ∈ items := by
  induction items generalizing options with
  | nil => simp
  | cons item items ih =>
    rw [List.foldl_cons, ih]
    cases item <;> simp [Item.adjust]

/-- Of several limits the last one counts. -/
theorem maxDepth_foldl_adjust : (items.foldl Item.adjust options).maxDepth =
    (items.filterMap Item.limit?).getLast?.getD options.maxDepth := by
  induction items generalizing options with
  | nil => rfl
  | cons item items ih =>
    rw [List.foldl_cons, ih]
    cases item with
    | noMemo => rfl
    | maxDepth limit =>
      have hFirst : (Item.maxDepth limit :: items).filterMap Item.limit? =
          limit.value :: items.filterMap Item.limit? := rfl
      rw [hFirst, List.getLast?_cons, Option.getD_some]
      rfl
    | path _ _ => rfl

theorem options_eq_iff {asked : Options} : asked = options ↔
    (asked.memoize = false ↔ options.memoize = false) ∧ asked.maxDepth = options.maxDepth := by
  constructor
  · rintro rfl
    exact ⟨Iff.rfl, rfl⟩
  · rintro ⟨hMemoize, hMaxDepth⟩
    rw [← not_iff_not, Bool.not_eq_false, Bool.not_eq_false, ← Bool.eq_iff_iff] at hMemoize
    exact congrArg₂ Options.mk hMemoize hMaxDepth

/-- Items may change places as long as the limits keep their order. -/
theorem foldl_adjust_perm (hPerm : items.Perm items')
    (hLimits : items.filterMap Item.limit? = items'.filterMap Item.limit?) :
    items.foldl Item.adjust options = items'.foldl Item.adjust options := by
  rw [options_eq_iff, memoize_foldl_adjust, memoize_foldl_adjust, hPerm.mem_iff,
    maxDepth_foldl_adjust, maxDepth_foldl_adjust, hLimits]
  exact ⟨Iff.rfl, rfl⟩

theorem ofArgs_words (items : List Item) : ofArgs (items.flatMap Item.words) =
    conclude (items.foldl Item.adjust .standard) (items.filterMap Item.path?) :=
  ofArgsFrom_words items .standard none

theorem ofArgs_words_eq_ok_iff : ofArgs (items.flatMap Item.words) = .ok i ↔
    items.filterMap Item.path? = [i.path] ∧ (i.options.memoize = false ↔ .noMemo ∈ items) ∧
      i.options.maxDepth = (items.filterMap Item.limit?).getLast?.getD 1000 := by
  have hRemembers : ¬Options.standard.memoize = false := Bool.noConfusion
  rw [ofArgs_words, conclude_eq_ok_iff, options_eq_iff, memoize_foldl_adjust,
    or_iff_right hRemembers, maxDepth_foldl_adjust]
  rfl

/-- **The command line is read by its grammar.**  A list of words gives an invocation just when it
is cut into items with a single path among them.  The path is the one that is asked for, calls are
not remembered just if there is an item that says so, and the limit is the last one that is given,
or a thousand.  No list is cut into items in two ways.  Whatever items there are, they may change
places without any change to what comes of them, as long as the limits keep their order. -/
theorem ofArgs_items :
    (∀ (args : List String) (i : Invocation), ofArgs args = .ok i ↔
      ∃ items : List Item, items.flatMap Item.words = args ∧
        items.filterMap Item.path? = [i.path] ∧
        (i.options.memoize = false ↔ .noMemo ∈ items) ∧
        i.options.maxDepth = (items.filterMap Item.limit?).getLast?.getD 1000) ∧
    (∀ items items' : List Item,
      items.flatMap Item.words = items'.flatMap Item.words → items = items') ∧
    ∀ items items' : List Item, items.Perm items' →
      items.filterMap Item.limit? = items'.filterMap Item.limit? →
      ofArgs (items.flatMap Item.words) = ofArgs (items'.flatMap Item.words) := by
  refine ⟨fun args i => ⟨fun h => ?_, ?_⟩, fun _ _ => flatMap_words_inj,
    fun items items' hPerm hLimits => ?_⟩
  · obtain ⟨items, rfl⟩ := exists_items h
    exact ⟨items, rfl, ofArgs_words_eq_ok_iff.1 h⟩
  · rintro ⟨items, rfl, hSays⟩
    exact ofArgs_words_eq_ok_iff.2 hSays
  · rw [ofArgs_words, ofArgs_words, foldl_adjust_perm hPerm hLimits]
    exact conclude_perm (hPerm.filterMap Item.path?)

/-- The flag and the path may stand where they like; of the two limits the last one counts. -/
theorem ofArgs_items_reordered :
    let early : Item := .maxDepth ⟨false, [6, 4], by decide, by decide⟩
    let late : Item := .maxDepth ⟨true, [0, 0, 7], by decide, by decide⟩
    let program : Item := .path "p" (by decide)
    let items := [early, program, .noMemo, late]
    let items' := [.noMemo, early, late, program]
    items.flatMap Item.words = ["--max-depth", "64", "p", "--no-memo", "--max-depth", "+007"] ∧
    items.Perm items' ∧ items.filterMap Item.limit? = items'.filterMap Item.limit? ∧
    ofArgs (items.flatMap Item.words) = .ok ⟨"p", ⟨false, 7⟩⟩ ∧
    ofArgs (items'.flatMap Item.words) = .ok ⟨"p", ⟨false, 7⟩⟩ := by
  intro early late program items items'
  have hPerm : items.Perm items' := by decide
  have hLimits : items.filterMap Item.limit? = items'.filterMap Item.limit? := by decide
  obtain ⟨hGrammar, -, hReordered⟩ := ofArgs_items
  have hRead : ofArgs (items.flatMap Item.words) = .ok ⟨"p", ⟨false, 7⟩⟩ :=
    (hGrammar _ _).2 ⟨items, rfl, rfl, by decide, by decide⟩
  have hSame := hReordered items items' hPerm hLimits
  exact ⟨by decide, hPerm, hLimits, hRead, hSame.symm.trans hRead⟩

/-- What stands behind the flag of the limit is its numeral, whatever it looks like. -/
example : ofArgs ["--max-depth", "--no-memo", "p"] = .error (.depthInvalid "--no-memo") := by decide

end Invocation

end PostLisp
