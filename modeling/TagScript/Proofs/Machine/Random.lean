import TagScript.Proofs.Machine.Changes
import TagScript.Proofs.Store.Formed

/-!
# The Function `random` Keeps to Its Bounds

Whatever its arguments are, `random` either draws a number between the bounds they ask for, both
included, or refuses them without drawing anything (`random_keeps_to_bounds`). It never asks its
source for a number below a bound that is not positive, since a positive number of candidates does
not wrap around, and the one distance at which it would is drawn in another way.

Nothing is assumed of the source but that its words are not negative and that it draws below every
positive bound.
-/

namespace TagScript.Builtin

/-- The arguments ask for a random number between two bounds: up to a number that is not negative,
or between two such numbers in order. -/
inductive AsksBetween : List Arg → Int64 → Int64 → Prop
  | upTo {hi : Int64} (tag : Tag) : 0 ≤ hi → AsksBetween [⟨.int hi, tag⟩] 0 hi
  | between {lo hi : Int64} (tag tag' : Tag) : 0 ≤ lo → lo ≤ hi →
      AsksBetween [⟨.int lo, tag⟩, ⟨.int hi, tag'⟩] lo hi

/-- The kind of error with which arguments for a random number are refused: more than two are wrong
arguments, something else than whole numbers has the wrong type, and whole numbers are out of
bounds. -/
def refusalKind (args : List Arg) : ErrorKind :=
  if 2 < args.length then .argument
  else if ∃ a ∈ args, a.value.tag ≠ .int then .type
  else .value

/-- The arguments are refused with an error of the right kind, and nothing is drawn. -/
def Refused {σ : Type} (src : Random.Source σ) (args : List Arg) (s : σ) : Prop :=
  ∃ cause, randomAnswer src args s = (.error cause, s) ∧ cause.kind = refusalKind args

section Answers

variable {σ : Type} {src : Random.Source σ} (s : σ)

theorem drawAnswer_draws (hsrc : src.Lawful) {lo hi : Int64} (hlo : 0 ≤ lo) (hle : lo ≤ hi) :
    ∃ n s', drawAnswer src lo hi s = (.value (.int n), s') ∧ src.Draws lo hi s n s' := by
  obtain ⟨n, s', hdraw, hdraws⟩ := hsrc.inclusive hlo hle s
  refine ⟨n, s', ?_, hdraws⟩
  unfold drawAnswer
  rw [hdraw]

/-- Bounds that are asked for have a number drawn between them. -/
theorem randomAnswer_draws (hsrc : src.Lawful) {args : List Arg} {lo hi : Int64}
    (h : AsksBetween args lo hi) :
    ∃ n s', randomAnswer src args s = (.ok (.value (.int n)), s') ∧ src.Draws lo hi s n s' := by
  cases h with
  | upTo tag hhi =>
    obtain ⟨n, s', hdraw, hdraws⟩ := drawAnswer_draws s hsrc (by decide) hhi
    refine ⟨n, s', ?_, hdraws⟩
    rw [randomAnswer, if_neg (Int64.not_lt.mpr hhi), hdraw]
  | between tag tag' hlo hle =>
    obtain ⟨n, s', hdraw, hdraws⟩ := drawAnswer_draws s hsrc hlo hle
    refine ⟨n, s', ?_, hdraws⟩
    -- the upper bound is not negative either
    have hsign : ¬ (lo < 0 ∨ hi < 0) := by
      rintro (hneg | hneg)
      · exact Int64.not_lt.mpr hlo hneg
      · exact Int64.not_lt.mpr (Int64.le_trans hlo hle) hneg
    rw [randomAnswer, if_neg hsign, if_neg (Int64.not_lt.mpr hle), hdraw]

theorem refused_one (a : Arg) (h : ∀ lo hi, ¬ AsksBetween [a] lo hi) : Refused src [a] s := by
  obtain ⟨v, tag⟩ := a
  by_cases hv : v.tag = .int
  · obtain ⟨hi, rfl⟩ := v.tag_eq_int_iff.mp hv
    -- a number that is not negative would have been a bound
    have hneg : hi < 0 := Int64.not_le.mp fun hhi => h 0 hi (.upTo tag hhi)
    refine ⟨.randomNegative, ?_, ?_⟩
    · rw [randomAnswer, if_pos hneg]
    · simp [refusalKind, Cause.kind, Value.tag]
  · refine ⟨.randomBound, ?_, ?_⟩
    · cases v with
      | int n => exact absurd rfl hv
      | _ => rfl
    · simp [refusalKind, Cause.kind, hv]

theorem refused_two (a b : Arg) (h : ∀ lo hi, ¬ AsksBetween [a, b] lo hi) :
    Refused src [a, b] s := by
  obtain ⟨v, tag⟩ := a
  obtain ⟨w, tag'⟩ := b
  by_cases hboth : v.tag = .int ∧ w.tag = .int
  · obtain ⟨lo, rfl⟩ := v.tag_eq_int_iff.mp hboth.1
    obtain ⟨hi, rfl⟩ := w.tag_eq_int_iff.mp hboth.2
    have hkind : refusalKind [⟨.int lo, tag⟩, ⟨.int hi, tag'⟩] = .value := by
      simp [refusalKind, Value.tag]
    by_cases hsign : lo < 0 ∨ hi < 0
    · exact ⟨.randomNegatives, by rw [randomAnswer, if_pos hsign], hkind.symm⟩
    · -- the numbers are not negative, so they are in the wrong order
      have hlo : 0 ≤ lo := Int64.not_lt.mp fun hneg => hsign (.inl hneg)
      have horder : hi < lo := Int64.not_le.mp fun hle => h lo hi (.between tag tag' hlo hle)
      refine ⟨.randomOrder, ?_, hkind.symm⟩
      rw [randomAnswer, if_neg hsign, if_pos horder]
  · refine ⟨.randomBounds, ?_, ?_⟩
    · cases v with
      | int lo =>
        cases w with
        | int hi => exact absurd ⟨rfl, rfl⟩ hboth
        | _ => rfl
      | _ => rfl
    · have hother : v.tag ≠ .int ∨ w.tag ≠ .int := not_and_or.mp hboth
      simp [refusalKind, Cause.kind, hother]

/-- Arguments that ask for nothing between bounds are refused, and nothing is drawn. -/
theorem refused_of_not_asksBetween {args : List Arg} (hne : args ≠ [])
    (h : ∀ lo hi, ¬ AsksBetween args lo hi) : Refused src args s := by
  match args, hne, h with
  | [a], _, h => exact refused_one s a h
  | [a, b], _, h => exact refused_two s a b h
  | a :: b :: c :: rest, _, _ =>
    refine ⟨.randomArity, ?_, ?_⟩
    · simp [randomAnswer]
    · simp [refusalKind, Cause.kind]

end Answers

/-- The function `random` keeps to its bounds, whatever its arguments are. It never trips its
source. Bounds that are asked for have a number drawn between them, both included, and no sum or
difference on the way wraps around, also for the bounds that are farthest apart. All other
arguments, if there are any, are refused with an error of their kind, and nothing is drawn. The
function of a session is this one with a lawful source. -/
theorem random_keeps_to_bounds {σ : Type} {src : Random.Source σ} (hsrc : src.Lawful)
    (args : List Arg) (s : σ) :
    (∀ f, (randomAnswer src args s).1 ≠ .ok (.fault f)) ∧
    (∀ lo hi, AsksBetween args lo hi → ∃ n s',
      randomAnswer src args s = (.ok (.value (.int n)), s') ∧ src.Draws lo hi s n s') ∧
    (args ≠ [] → (∀ lo hi, ¬ AsksBetween args lo hi) → Refused src args s) ∧
    Random.Generator.source.Lawful ∧
      ∀ g, Builtin.random.answer args g = randomAnswer Random.Generator.source args g := by
  refine ⟨Eval.fault_random hsrc args s, fun lo hi h => randomAnswer_draws s hsrc h,
    fun hne h => refused_of_not_asksBetween s hne h, Random.Generator.lawful_source, fun g => rfl⟩

/-- The bounds that are farthest apart, drawn from by the generator of a session. -/
theorem random_keeps_to_bounds_extremes :
    let args : List Arg := [⟨.int 0, .int⟩, ⟨.int Int64.maxValue, .int⟩]
    let g := Random.Generator.ofSeed 1
    Random.Generator.source.Lawful ∧ AsksBetween args 0 Int64.maxValue ∧
      ∃ n g', randomAnswer Random.Generator.source args g = (.ok (.value (.int n)), g') ∧
        Random.Generator.source.Draws 0 Int64.maxValue g n g' := by
  intro args g
  have hsrc : Random.Generator.source.Lawful := Random.Generator.lawful_source
  have hasks : AsksBetween args 0 Int64.maxValue := .between .int .int (by decide) (by decide)
  obtain ⟨-, hdraws, -⟩ := random_keeps_to_bounds hsrc args g
  exact ⟨hsrc, hasks, hdraws _ _ hasks⟩

end TagScript.Builtin
