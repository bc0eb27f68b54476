import BootImageEditor.Jvm
import BootImageEditor.Library.FirstMatch

/-!
# Choosing the image

`PackableLauncher` looks through the working directory for a file that one of the parsers can
handle, in two rounds, and takes the first. `File.listFiles` promises no order, and the parsers
of the first round know nine file names.
-/

namespace BootImageEditor

open Codec

namespace Packable

/-! ## The patterns -/

/-- The parts of the regular expressions of the parsers. -/
inductive Piece where
  /-- Characters that stand for themselves, also after a backslash. -/
  | text (s : KString)
  /-- `.` -/
  | anyChar
  /-- `[a-z]+` -/
  | lowerCase
  /-- `(a|b)` -/
  | oneOf (words : List KString)
  deriving DecidableEq

abbrev Pattern := List Piece

def isLineTerminator (u : UInt16) : Bool :=
  u = 0x0A || u = 0x0D || u = 0x85 || u = 0x2028 || u = 0x2029

def isLowerCase (u : UInt16) : Bool := 0x61 ≤ u && u ≤ 0x7A

/-- What is behind `s` at the front of the input. -/
def afterText (s input : KString) : Option KString :=
  if s.isPrefixOf input then some (input.drop s.length) else none

/-- What can be left of the input behind a piece. A dot takes one character, which may be a
pair of surrogates. -/
def Piece.rests : Piece → KString → List KString
  | .text s, input => (afterText s input).toList
  | .anyChar, [] => []
  | .anyChar, [u] => if isLineTerminator u then [] else [[]]
  | .anyChar, u :: v :: input =>
      if isLineTerminator u then []
      else if Utf8.highSurrogate u && Utf8.lowSurrogate v then [input]
      else [v :: input]
  | .lowerCase, input =>
      (List.range (input.takeWhile isLowerCase).length).map fun n => input.drop (n + 1)
  | .oneOf words, input => words.filterMap fun s => afterText s input

/-- `Pattern.compile(item).matcher(name).matches()`: the whole input. -/
def Pattern.matches : Pattern → KString → Bool
  | [], input => input.isEmpty
  | piece :: pieces, input => (piece.rests input).any fun rest => Pattern.matches pieces rest

/-! ## The launcher -/

inductive Handler where
  | dtboParser
  | vbMetaParser
  | bootImgParser
  | sparseImgParser
  deriving DecidableEq, Repr

namespace Handler

def loopNo : Handler → ℕ
  | dtboParser => 0
  | vbMetaParser => 1
  | bootImgParser => 0
  | sparseImgParser => 0

def capabilities : Handler → List Pattern
  -- `^dtbo\.img$`
  | dtboParser => [[.text (units "dtbo.img")]]
  -- `^vbmeta\.img$` and `^vbmeta\_[a-z]+.img$`
  | vbMetaParser => [[.text (units "vbmeta.img")],
      [.text (units "vbmeta_"), .lowerCase, .anyChar, .text (units "img")]]
  -- `^boot\.img$`, `^recovery\.img$` and `^recovery-two-step\.img$`
  | bootImgParser => [[.text (units "boot.img")], [.text (units "recovery.img")],
      [.text (units "recovery-two-step.img")]]
  -- `^(system|vendor|product|cache|userdata)\.img$`
  | sparseImgParser => [[.oneOf [units "system", units "vendor", units "product", units "cache",
      units "userdata"], .text (units ".img")]]

end Handler

abbrev Pool := List (List Pattern × Handler)

/-- `put(key, value)` of a `mutableMapOf`, which keeps the order of insertion. -/
def Pool.put (pool : Pool) (key : List Pattern) (value : Handler) : Pool :=
  if pool.any fun p => p.1 = key then
    pool.map fun p => if p.1 = key then (key, value) else p
  else pool ++ [(key, value)]

def packablePool : Pool :=
  [Handler.dtboParser, .vbMetaParser, .bootImgParser, .sparseImgParser].foldl
    (fun pool it => pool.put it.capabilities it) []

/-- The handler that a file gets in a round: the first one with a pattern for its name. -/
def handlerOf (currentLoopNo : ℕ) (name : KString) : Option Handler :=
  ((packablePool.filter fun p => p.2.loopNo = currentLoopNo).find? fun p =>
    p.1.any fun item => Pattern.matches item name).map Prod.snd

/-- A round over one file: the file with its handler. -/
def foundIn (currentLoopNo : ℕ) (name : KString) : Option (KString × Handler) :=
  (handlerOf currentLoopNo name).map (name, ·)

/-- The search of `main`: target file and handler, from what `listFiles` returns. -/
def search (listFiles : List KString) : Option (KString × Handler) :=
  firstMatch [foundIn 0, foundIn 1] listFiles

/-- The files of a directory that a round has a handler for. -/
def candidates (currentLoopNo : ℕ) (names : List KString) : List KString :=
  names.filter fun name => (handlerOf currentLoopNo name).isSome

/-! ## Names with a handler -/

theorem packablePool_eq : packablePool =
    [Handler.dtboParser, .vbMetaParser, .bootImgParser, .sparseImgParser].map
      fun h => (h.capabilities, h) := by decide

theorem afterText_eq_some_iff {s input rest : KString} :
    afterText s input = some rest ↔ input = s ++ rest := by
  unfold afterText
  by_cases h : s.isPrefixOf input
  · rw [if_pos h, Option.some.injEq]
    obtain ⟨t, rfl⟩ := List.isPrefixOf_iff_prefix.mp h
    rw [List.drop_left, List.append_cancel_left_eq]
  · rw [if_neg h]
    constructor
    · intro h'
      cases h'
    · rintro rfl
      exact absurd (List.isPrefixOf_iff_prefix.mpr (List.prefix_append s rest)) h

theorem matches_text_iff {s name : KString} : Pattern.matches [.text s] name ↔ name = s := by
  have hrests : (Piece.text s).rests name = (afterText s name).toList := rfl
  simp only [Pattern.matches, hrests, List.any_eq_true, Option.mem_toList,
    List.isEmpty_iff, afterText_eq_some_iff]
  constructor
  · rintro ⟨rest, hname, rfl⟩
    rw [hname, List.append_nil]
  · rintro rfl
    exact ⟨[], (List.append_nil name).symm, rfl⟩

theorem matches_oneOf_text_iff {words : List KString} {s name : KString} :
    Pattern.matches [.oneOf words, .text s] name ↔ ∃ word ∈ words, name = word ++ s := by
  have hrests : (Piece.oneOf words).rests name = words.filterMap fun s => afterText s name := rfl
  have hcons : Pattern.matches [.oneOf words, .text s] name =
      ((Piece.oneOf words).rests name).any fun rest => Pattern.matches [.text s] rest := rfl
  rw [hcons, hrests, List.any_eq_true]
  constructor
  · rintro ⟨rest, hrest, hmatch⟩
    obtain ⟨word, hword, hafter⟩ := List.mem_filterMap.mp hrest
    rw [afterText_eq_some_iff, matches_text_iff.mp hmatch] at hafter
    exact ⟨word, hword, hafter⟩
  · rintro ⟨word, hword, hname⟩
    exact ⟨s, List.mem_filterMap.mpr ⟨word, hword, afterText_eq_some_iff.mpr hname⟩,
      matches_text_iff.mpr rfl⟩

/-- The file names of the first round. -/
def firstRoundNames : List KString :=
  [units "dtbo.img", units "boot.img", units "recovery.img", units "recovery-two-step.img",
    units "system.img", units "vendor.img", units "product.img", units "cache.img",
    units "userdata.img"]

/-- A file has a handler when a parser of the round has a pattern for it. -/
theorem isSome_handlerOf_iff {currentLoopNo : ℕ} {name : KString} :
    (handlerOf currentLoopNo name).isSome ↔
      ∃ h : Handler, h.loopNo = currentLoopNo ∧
        ∃ item ∈ h.capabilities, Pattern.matches item name := by
  rw [handlerOf, Option.isSome_map, List.find?_isSome]
  simp only [List.mem_filter, decide_eq_true_eq, List.any_eq_true, packablePool_eq,
    List.mem_map]
  constructor
  · rintro ⟨_, ⟨⟨h, -, rfl⟩, hloop⟩, item, hitem, hmatch⟩
    exact ⟨h, hloop, item, hitem, hmatch⟩
  · rintro ⟨h, hloop, item, hitem, hmatch⟩
    refine ⟨(h.capabilities, h), ⟨⟨h, ?_, rfl⟩, hloop⟩, item, hitem, hmatch⟩
    cases h <;> decide

theorem isSome_handlerOf_zero_iff (name : KString) :
    (handlerOf 0 name).isSome ↔ name ∈ firstRoundNames := by
  rw [isSome_handlerOf_iff]
  constructor
  · rintro ⟨h, hloop, item, hitem, hmatch⟩
    cases h with
    | dtboParser =>
        rw [List.mem_singleton.mp hitem, matches_text_iff] at hmatch
        rw [hmatch]
        decide
    | vbMetaParser => cases hloop
    | bootImgParser =>
        simp only [Handler.capabilities, List.mem_cons, List.not_mem_nil, or_false] at hitem
        rcases hitem with rfl | rfl | rfl <;>
          · rw [matches_text_iff.mp hmatch]
            decide
    | sparseImgParser =>
        rw [List.mem_singleton.mp hitem, matches_oneOf_text_iff] at hmatch
        obtain ⟨word, hword, rfl⟩ := hmatch
        simp only [List.mem_cons, List.not_mem_nil, or_false] at hword
        rcases hword with rfl | rfl | rfl | rfl | rfl <;> decide
  · intro hname
    simp only [firstRoundNames, List.mem_cons, List.not_mem_nil, or_false] at hname
    rcases hname with rfl | rfl | rfl | rfl | hname
    · exact ⟨.dtboParser, rfl, _, List.mem_cons_self, matches_text_iff.mpr rfl⟩
    · exact ⟨.bootImgParser, rfl, _, List.mem_cons_self, matches_text_iff.mpr rfl⟩
    · exact ⟨.bootImgParser, rfl, _, List.mem_cons_of_mem _ List.mem_cons_self,
        matches_text_iff.mpr rfl⟩
    · exact ⟨.bootImgParser, rfl, _,
        List.mem_cons_of_mem _ (List.mem_cons_of_mem _ List.mem_cons_self),
        matches_text_iff.mpr rfl⟩
    · refine ⟨.sparseImgParser, rfl, _, List.mem_cons_self, matches_oneOf_text_iff.mpr ?_⟩
      rcases hname with rfl | rfl | rfl | rfl | rfl
      · exact ⟨units "system", by decide, rfl⟩
      · exact ⟨units "vendor", by decide, rfl⟩
      · exact ⟨units "product", by decide, rfl⟩
      · exact ⟨units "cache", by decide, rfl⟩
      · exact ⟨units "userdata", by decide, rfl⟩

/-- The candidates of the first round are the files with these names. -/
@[simp] theorem candidates_zero (names : List KString) :
    candidates 0 names = names.filter (· ∈ firstRoundNames) := by
  refine List.filter_congr fun name _ => ?_
  rw [Bool.eq_iff_iff, isSome_handlerOf_zero_iff, decide_eq_true_eq]

/-! ## The order of the directory -/

theorem filterMap_foundIn_eq_nil_iff {currentLoopNo : ℕ} {names : List KString} :
    names.filterMap (foundIn currentLoopNo) = [] ↔ candidates currentLoopNo names = [] := by
  rw [candidates, List.filterMap_eq_nil_iff, List.filter_eq_nil_iff]
  refine forall₂_congr fun name _ => ?_
  rw [foundIn, Option.map_eq_none_iff, Bool.not_eq_true, Option.isSome_eq_false_iff,
    Option.isNone_iff_eq_none]

theorem allSame_foundIn_iff {currentLoopNo : ℕ} {names : List KString} (hnames : names.Nodup) :
    AllSame (names.filterMap (foundIn currentLoopNo)) ↔
      (candidates currentLoopNo names).length ≤ 1 :=
  allSame_named_iff hnames

/-- The search finds the same target and handler in every order of the directory exactly where
the first round has one candidate at most, and without one the second round has. -/
theorem search_orderFree_iff (names : List KString) (hnames : names.Nodup) :
    (∀ l₁ l₂, l₁.Perm names → l₂.Perm names → search l₁ = search l₂) ↔
      (candidates 0 names).length ≤ 1 ∧
        (candidates 0 names = [] → (candidates 1 names).length ≤ 1) := by
  have hfree : (∀ l₁ l₂, l₁.Perm names → l₂.Perm names → search l₁ = search l₂) ↔
      OrderFree [foundIn 0, foundIn 1] names := Iff.rfl
  rw [hfree, orderFree_iff]
  unfold Decided Decided Decided
  rw [allSame_foundIn_iff hnames, allSame_foundIn_iff hnames, filterMap_foundIn_eq_nil_iff]
  simp only [implies_true, and_true]

theorem search_orderFree_iff_vbmeta :
    (∀ l₁ l₂, l₁.Perm [units "boot.img", units "vbmeta.img"] →
        l₂.Perm [units "boot.img", units "vbmeta.img"] → search l₁ = search l₂) ↔
      (candidates 0 [units "boot.img", units "vbmeta.img"]).length ≤ 1 ∧
        (candidates 0 [units "boot.img", units "vbmeta.img"] = [] →
          (candidates 1 [units "boot.img", units "vbmeta.img"]).length ≤ 1) :=
  search_orderFree_iff _ (by decide)

/-- With two images of the first round, what comes first in the directory is chosen. -/
theorem search_boot_recovery :
    ¬ ∀ names : List KString, names.Nodup →
      ∀ l₁ l₂, l₁.Perm names → l₂.Perm names → search l₁ = search l₂ := by
  intro h
  have heq := h [units "boot.img", units "recovery.img"] (by decide) _
    [units "recovery.img", units "boot.img"] (List.Perm.refl _) (List.Perm.swap _ _ _)
  exact absurd heq (by decide)

end Packable

end BootImageEditor
