/-
The order of parameters as a regular language.

A list of parameters is read with one stage in mind, the last one that was reached, and each
form has a comparison of its own that says whether it still may come. The lists on which no
comparison fails are those of one regular expression: for each stage there is a language of
what may follow once it has been reached, and a parameter passes its comparison exactly when
it is a first letter of that language.
-/

import Mathlib.Computability.RegularExpressions
import RubySyntax.Grammar.Parameter

namespace RubySyntax

/-! ### Letters before a language -/

def Language.Lettered {α : Type} (letters : Language α) : Prop :=
  ∀ word ∈ letters, ∃ letter, word = [letter]

section

variable {α : Type} {letters : Language α}

theorem Language.Lettered.cons_mem_mul (lettered : Language.Lettered letters)
    (language : Language α) (letter : α) (more : List α) :
    letter :: more ∈ letters * language ↔ [letter] ∈ letters ∧ more ∈ language := by
  constructor
  · rintro ⟨word, member, rest, later, same⟩
    obtain ⟨first, rfl⟩ := lettered word member
    obtain ⟨rfl, rfl⟩ := List.cons.inj same
    exact ⟨member, later⟩
  · rintro ⟨member, later⟩
    exact ⟨[letter], member, more, later, rfl⟩

theorem Language.Lettered.cons_mem_option (lettered : Language.Lettered letters)
    (language : Language α) (letter : α) (more : List α) :
    letter :: more ∈ (1 + letters) * language ↔
      [letter] ∈ letters ∧ more ∈ language ∨ letter :: more ∈ language := by
  rw [add_mul, one_mul, Language.mem_add, lettered.cons_mem_mul, or_comm]

theorem Language.Lettered.cons_mem_star (lettered : Language.Lettered letters)
    (language : Language α) (letter : α) (more : List α) :
    letter :: more ∈ KStar.kstar letters * language ↔
      [letter] ∈ letters ∧ more ∈ KStar.kstar letters * language ∨ letter :: more ∈ language := by
  conv_lhs => rw [← Language.one_add_self_mul_kstar_eq_kstar, add_mul, one_mul, mul_assoc]
  rw [Language.mem_add, lettered.cons_mem_mul, or_comm]

end

/-! ### Forms -/

inductive ParameterForm where
  | plain
  | optional
  | rest
  | requiredKeyword
  | optionalKeyword
  | keywordRest
  | block
deriving DecidableEq

namespace ParameterForm

def stage (reached : ParameterStage) : ParameterForm → ParameterStage
  | .plain => reached.plain
  | .optional => .optional
  | .rest => .rest
  | .requiredKeyword => .keyword
  | .optionalKeyword => .keyword
  | .keywordRest => .keywordRest
  | .block => .block

def misplaced : ParameterStage → List ParameterForm → Nat
  | _, [] => 0
  | reached, form :: more =>
      (if (form.stage reached).mayFollow reached then 0 else 1) +
        misplaced (reached.later (form.stage reached)) more

/-- The parts of a list of parameters in their order: plain ones, those with a default, one that
takes the rest, plain ones again, those that are passed by name, one that takes the rest of
these, and one that takes the block. -/
def parts : List (RegularExpression ParameterForm) :=
  [.star (.char .plain), .star (.char .optional), 1 + .char .rest, .star (.char .plain),
    .star (.char .requiredKeyword + .char .optionalKeyword), 1 + .char .keywordRest,
    1 + .char .block]

def grammar : RegularExpression ParameterForm :=
  .star (.char .plain) * .star (.char .optional) * (1 + .char .rest) * .star (.char .plain) *
    .star (.char .requiredKeyword + .char .optionalKeyword) * (1 + .char .keywordRest) *
    (1 + .char .block)

/-- The parts that may still come once a stage has been reached. After a parameter that may come
once it is the next part. -/
def partsAfter : ParameterStage → List (RegularExpression ParameterForm)
  | .required => parts
  | .optional => parts.drop 1
  | .rest => parts.drop 3
  | .post => parts.drop 3
  | .keyword => parts.drop 4
  | .keywordRest => parts.drop 6
  | .block => []

def following (reached : ParameterStage) : Language ParameterForm :=
  ((partsAfter reached).map RegularExpression.matches').prod

theorem grammar_matches : grammar.matches' = following .required := by
  simp only [grammar, following, partsAfter, parts, RegularExpression.matches'_mul, List.map_cons,
    List.map_nil, List.prod_cons, List.prod_nil, mul_one, mul_assoc]

theorem nil_mem_following (reached : ParameterStage) : [] ∈ following reached := by
  have star (expression : RegularExpression ParameterForm) (language : Language ParameterForm)
      (last : [] ∈ language) : [] ∈ (RegularExpression.star expression).matches' * language :=
    ⟨[], Language.nil_mem_kstar _, [], last, rfl⟩
  have option (expression : RegularExpression ParameterForm) (language : Language ParameterForm)
      (last : [] ∈ language) : [] ∈ (1 + expression).matches' * language :=
    ⟨[], .inl rfl, [], last, rfl⟩
  have done : ([] : List ParameterForm) ∈ (1 : Language ParameterForm) := rfl
  cases reached with
  | required =>
      exact star _ _ (star _ _ (option _ _ (star _ _ (star _ _ (option _ _ (option _ _ done))))))
  | optional => exact star _ _ (option _ _ (star _ _ (star _ _ (option _ _ (option _ _ done)))))
  | rest => exact star _ _ (star _ _ (option _ _ (option _ _ done)))
  | post => exact star _ _ (star _ _ (option _ _ (option _ _ done)))
  | keyword => exact star _ _ (option _ _ (option _ _ done))
  | keywordRest => exact option _ _ done
  | block => exact done

theorem lettered (form : ParameterForm) : Language.Lettered (RegularExpression.char form).matches' := by
  rintro _ rfl
  exact ⟨form, rfl⟩

theorem singleton_mem (letter form : ParameterForm) :
    [letter] ∈ (RegularExpression.char form).matches' ↔ letter = form :=
  ⟨fun same => (List.cons.inj same).1, fun same => same ▸ rfl⟩

theorem cons_mem_required (form : ParameterForm) (more : List ParameterForm) :
    form :: more ∈ following .required ↔
      form = .plain ∧ more ∈ following .required ∨ form :: more ∈ following .optional := by
  have parted : following .required =
      KStar.kstar (RegularExpression.char .plain).matches' * following .optional := List.prod_cons
  conv_lhs => rw [parted, (lettered .plain).cons_mem_star, ← parted]
  rw [singleton_mem]

theorem cons_mem_optional (form : ParameterForm) (more : List ParameterForm) :
    form :: more ∈ following .optional ↔
      form = .optional ∧ more ∈ following .optional ∨
        form = .rest ∧ more ∈ following .rest ∨ form :: more ∈ following .post := by
  have parted : following .optional =
      KStar.kstar (RegularExpression.char .optional).matches' *
        ((1 + (RegularExpression.char .rest).matches') * following .rest) := by
    simp only [following, partsAfter, parts, List.drop_succ_cons, List.drop_zero, List.map_cons,
      List.prod_cons, RegularExpression.matches'_star, RegularExpression.matches'_add,
      RegularExpression.matches'_epsilon]
  conv_lhs => rw [parted, (lettered .optional).cons_mem_star, ← parted,
    (lettered .rest).cons_mem_option]
  rw [singleton_mem, singleton_mem]
  rfl

theorem cons_mem_post (form : ParameterForm) (more : List ParameterForm) :
    form :: more ∈ following .post ↔
      form = .plain ∧ more ∈ following .post ∨ form :: more ∈ following .keyword := by
  have parted : following .post =
      KStar.kstar (RegularExpression.char .plain).matches' * following .keyword := List.prod_cons
  conv_lhs => rw [parted, (lettered .plain).cons_mem_star, ← parted]
  rw [singleton_mem]

theorem cons_mem_keyword (form : ParameterForm) (more : List ParameterForm) :
    form :: more ∈ following .keyword ↔
      (form = .requiredKeyword ∨ form = .optionalKeyword) ∧ more ∈ following .keyword ∨
        form = .keywordRest ∧ more ∈ following .keywordRest ∨
          form :: more ∈ following .keywordRest := by
  have either : Language.Lettered ((RegularExpression.char ParameterForm.requiredKeyword).matches' +
      (RegularExpression.char ParameterForm.optionalKeyword).matches') := by
    rintro word (member | member)
    · exact lettered _ word member
    · exact lettered _ word member
  have parted : following .keyword =
      KStar.kstar ((RegularExpression.char ParameterForm.requiredKeyword).matches' +
        (RegularExpression.char ParameterForm.optionalKeyword).matches') *
        ((1 + (RegularExpression.char .keywordRest).matches') * following .keywordRest) := by
    simp only [following, partsAfter, parts, List.drop_succ_cons, List.drop_zero, List.map_cons,
      List.prod_cons, RegularExpression.matches'_star, RegularExpression.matches'_add,
      RegularExpression.matches'_epsilon]
  conv_lhs => rw [parted, either.cons_mem_star, ← parted, (lettered .keywordRest).cons_mem_option]
  rw [Language.mem_add, singleton_mem, singleton_mem, singleton_mem]

theorem cons_mem_keywordRest (form : ParameterForm) (more : List ParameterForm) :
    form :: more ∈ following .keywordRest ↔ form = .block ∧ more ∈ following .block := by
  have parted : following .keywordRest =
      (1 + (RegularExpression.char .block).matches') * following .block := by
    simp only [following, partsAfter, parts, List.drop_succ_cons, List.drop_zero, List.map_cons,
      List.prod_cons, RegularExpression.matches'_add, RegularExpression.matches'_epsilon, List.map_nil]
  have none : form :: more ∉ following .block := fun same => List.cons_ne_nil _ _ same
  rw [parted, (lettered .block).cons_mem_option, singleton_mem, or_iff_left none]

/-- What may follow the second row of plain parameters may follow the first. -/
theorem mem_required_of_post {forms : List ParameterForm} (member : forms ∈ following .post) :
    forms ∈ following .required :=
  ⟨[], Language.nil_mem_kstar _, _, ⟨[], Language.nil_mem_kstar _, _,
    ⟨[], .inl rfl, _, member, rfl⟩, rfl⟩, rfl⟩

/-- A form may come first where its comparison holds, and what may come after it is what may
follow its stage. -/
theorem cons_mem_following (reached : ParameterStage) (form : ParameterForm)
    (more : List ParameterForm) :
    form :: more ∈ following reached ↔ (form.stage reached).mayFollow reached = true ∧
      more ∈ following (reached.later (form.stage reached)) := by
  have rest : following .rest = following .post := rfl
  have block (form : ParameterForm) (more : List ParameterForm) :
      form :: more ∉ following .block := fun same => List.cons_ne_nil _ _ same
  cases reached <;> cases form <;>
    simp [rest, block, cons_mem_required, cons_mem_optional, cons_mem_post, cons_mem_keyword,
      cons_mem_keywordRest, stage, ParameterStage.plain, ParameterStage.mayFollow,
      ParameterStage.later, ParameterStage.rank]
  exact mem_required_of_post

/-- No parameter comes too late where the forms are in the order of the grammar. -/
theorem misplaced_eq_zero (reached : ParameterStage) (forms : List ParameterForm) :
    misplaced reached forms = 0 ↔ forms ∈ following reached := by
  induction forms generalizing reached with
  | nil => exact iff_of_true rfl (nil_mem_following reached)
  | cons form more ih =>
      rw [misplaced, Nat.add_eq_zero_iff, ih, cons_mem_following]
      refine and_congr_left fun _ => ?_
      split
      · next follows => exact iff_of_true rfl follows
      · next late => exact iff_of_false Nat.one_ne_zero late

theorem misplaced_required (forms : List ParameterForm) :
    misplaced .required forms = 0 ↔ forms ∈ grammar.matches' := by
  rw [misplaced_eq_zero, grammar_matches]

def reachedAfter (reached : ParameterStage) : List ParameterForm → ParameterStage
  | [] => reached
  | form :: more => reachedAfter (reached.later (form.stage reached)) more

theorem reachedAfter_concat (reached : ParameterStage) (forms : List ParameterForm)
    (form : ParameterForm) :
    reachedAfter reached (forms ++ [form]) =
      (reachedAfter reached forms).later (form.stage (reachedAfter reached forms)) := by
  induction forms generalizing reached with
  | nil => rfl
  | cons first more ih => exact ih _

theorem misplaced_concat (reached : ParameterStage) (forms : List ParameterForm)
    (form : ParameterForm) :
    misplaced reached (forms ++ [form]) = misplaced reached forms +
      if (form.stage (reachedAfter reached forms)).mayFollow (reachedAfter reached forms) then 0
      else 1 := by
  induction forms generalizing reached with
  | nil => exact Nat.add_comm ..
  | cons first more ih => rw [List.cons_append, misplaced, misplaced, ih, Nat.add_assoc]; rfl

end ParameterForm

/-! ### Where parameters are kept -/

structure Parameters.Until {α : Type} (list : Parameters α) (reached : ParameterStage) : Prop where
  optional : reached.rank < 1 → list.optional = []
  rest : reached.rank < 2 → list.rest = none
  post : reached.rank < 3 → list.post = []
  keywords : reached.rank < 4 → list.keywords = []
  keywordRest : reached.rank < 5 → list.keywordRest = none
  block : reached.rank < 6 → list.block = none

namespace Parameters

variable {α : Type} {list : Parameters α} {reached stage : ParameterStage} {item : α}

theorem Until.empty (reached : ParameterStage) : ({} : Parameters α).Until reached :=
  ⟨fun _ => rfl, fun _ => rfl, fun _ => rfl, fun _ => rfl, fun _ => rfl, fun _ => rfl⟩

theorem Until.add (kept : list.Until reached) : (list.add stage item).Until (reached.later stage) := by
  obtain ⟨optional, rest, post, keywords, keywordRest, block⟩ := kept
  constructor <;> cases reached <;> cases stage <;>
    simp_all [Parameters.add, ParameterStage.later, ParameterStage.rank]

theorem isEmpty_add : (list.add stage item).isEmpty = false := by
  cases stage <;> simp [Parameters.add, isEmpty]

/-- A parameter that does not come too late comes last of all. -/
theorem Until.children_add (kept : list.Until reached) (follows : stage.mayFollow reached = true) :
    (list.add stage item).children = list.children ++ [item] := by
  obtain ⟨optional, rest, post, keywords, keywordRest, block⟩ := kept
  cases reached <;> cases stage <;>
    simp_all [Parameters.add, children, ParameterStage.mayFollow, ParameterStage.rank]

end Parameters

end RubySyntax
