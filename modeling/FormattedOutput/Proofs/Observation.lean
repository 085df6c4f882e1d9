import FormattedOutput.Proofs.Policy
import FormattedOutput.Proofs.RuleTables

/-! What a run observes of its environment. Of the target, rules see the set of families and not the
list (`Target.Alike`), and of an override, only that it is there. So two environments with the same
view (`Environment.SameView`) cannot be told apart by what the script prints, by the probe, or by
its exit status. A message can tell them apart, as it shows the target as it was listed. -/

namespace FormattedOutput.Selection

/-- Two targets that differ only in how their families are listed. -/
structure Target.Alike (t t' : Target) : Prop where
  os : t.os = t'.os
  env : t.env = t'.env
  abi : t.abi = t'.abi
  family : ∀ f, f ∈ t.family ↔ f ∈ t'.family

section Rules

variable {t t' : Target} {r : Rule} {enabled enabled' : String → Bool} {e : Engine}

theorem Target.Alike.matches_iff (H : t.Alike t') : r.Matches t ↔ r.Matches t' := by
  constructor
  · intro h
    exact ⟨H.os ▸ h.os, H.env ▸ h.env, H.abi ▸ h.abi, by simpa only [H.family] using h.family⟩
  · intro h
    exact ⟨H.os ▸ h.os, H.env ▸ h.env, H.abi ▸ h.abi, by simpa only [H.family] using h.family⟩

theorem Target.Alike.ruled_eq (H : t.Alike t') (rules : List Rule) :
    ruled rules t = ruled rules t' := by
  induction rules with
  | nil => rfl
  | cons r rules ih =>
    have hfits : r.fits t = r.fits t' := by
      rw [Bool.eq_iff_iff, Rule.fits_iff, Rule.fits_iff, H.matches_iff]
    rw [ruled_cons, ruled_cons, hfits, ih]

theorem Target.Alike.choose_eq_ok_iff (H : t.Alike t')
    (h : ∀ e : Engine, enabled e.feature = enabled' e.feature) (rules : List Rule) :
    choose t rules enabled = .ok e ↔ choose t' rules enabled' = .ok e := by
  rw [Selection.choose_eq_ok_iff, Selection.choose_eq_ok_iff, overrides_congr h, H.ruled_eq]

end Rules

namespace Environment

variable {env env' : Environment} {compilers compilers' : String → Compiler}

/-- A family that an environment lists: a part of the list between commas that is not empty. -/
def Lists (env : Environment) (f : String) : Prop :=
  f ≠ "" ∧ ∃ parts : List String, (∀ p ∈ parts, ',' ∉ p.toList) ∧
    env.ReadAs "CARGO_CFG_TARGET_FAMILY" (",".intercalate parts) ∧ f ∈ parts

/-- Two environments that look the same to the script. Of a list of families only the set counts,
and of an override only whether it is there. -/
structure SameView (env env' : Environment) : Prop where
  directory : env "OUT_DIR" = env' "OUT_DIR"
  program : env "RUSTC" = env' "RUSTC"
  overrides : ∀ e, env.Overridden e ↔ env'.Overridden e
  readings : ∀ key ∈ ["CARGO_CFG_TARGET_OS", "CARGO_CFG_TARGET_ENV", "CARGO_CFG_TARGET_ABI"],
    ∃ s, env.ReadAs key s ∧ env'.ReadAs key s
  families : ∀ f, env.Lists f ↔ env'.Lists f

theorem lists_iff {f : String} : env.Lists f ↔ f ∈ env.target.family := by
  constructor
  · rintro ⟨hne, parts, hcomma, hread, hmem⟩
    have hfamily : env.target.family = parts.filter (· ≠ "") := by
      rw [target, hread.textOrEmpty_eq, families_intercalate hcomma]
    rw [hfamily]
    exact List.mem_filter.2 ⟨hmem, by simpa using hne⟩
  · intro hmem
    obtain ⟨parts, hcomma, hread, hfamily⟩ := env.describes_target.readFamily
    rw [hfamily] at hmem
    obtain ⟨hmem, hne⟩ := List.mem_filter.1 hmem
    exact ⟨by simpa using hne, parts, hcomma, hread, hmem⟩

theorem text_congr {key : String} (h : env key = env' key) : env.text key = env'.text key := by
  rw [text, text, h]

namespace SameView

theorem alike_target (H : env.SameView env') : env.target.Alike env'.target := by
  have hread : ∀ key ∈ ["CARGO_CFG_TARGET_OS", "CARGO_CFG_TARGET_ENV", "CARGO_CFG_TARGET_ABI"],
      env.textOrEmpty key = env'.textOrEmpty key := by
    intro key hkey
    obtain ⟨s, hs, hs'⟩ := H.readings key hkey
    rw [hs.textOrEmpty_eq, hs'.textOrEmpty_eq]
  refine ⟨hread _ (by simp), hread _ (by simp), hread _ (by simp), fun f => ?_⟩
  rw [← lists_iff, ← lists_iff]
  exact H.families f

theorem enables_eq (H : env.SameView env') (e : Engine) :
    env.enables e.feature = env'.enables e.feature := by
  rw [Bool.eq_iff_iff, enables_iff, enables_iff]
  exact H.overrides e

theorem choose_eq_ok_iff (H : env.SameView env') {e : Engine} :
    choose env.target defaultRules env.enables = .ok e ↔
      choose env'.target defaultRules env'.enables = .ok e :=
  H.alike_target.choose_eq_ok_iff H.enables_eq defaultRules

theorem testCompiler_eq (H : env.SameView env')
    (hcompilers : ∀ name, env.text "RUSTC" = .ok name → compilers name = compilers' name) :
    testCompiler env compilers = testCompiler env' compilers' := by
  simp only [testCompiler, ← text_congr H.directory, ← text_congr H.program]
  cases hprogram : env.text "RUSTC" with
  | error error => rfl
  | ok name => simp only [hcompilers name hprogram]

end SameView

end Environment

/-- **Observations.** Environments with the same view, in which the named compiler behaves
in the same way, give runs that print the same lines, call the compiler in the same way and
end with the same status. -/
theorem configure_shows_view (env env' : Environment) (compilers compilers' : String → Compiler)
    (H : env.SameView env')
    (hcompilers : ∀ name, env "RUSTC" = some (Utf8.encode name) →
      compilers (String.ofList name) = compilers' (String.ofList name)) :
    (configure env compilers).lines = (configure env' compilers').lines ∧
      (configure env compilers).probe = (configure env' compilers').probe ∧
      (configure env compilers).exitCode = (configure env' compilers').exitCode := by
  have htest : testCompiler env compilers = testCompiler env' compilers' := by
    refine H.testCompiler_eq fun name hname => ?_
    have h := hcompilers name.toList (Environment.text_eq_ok_iff.1 hname)
    rwa [String.ofList_toList] at h
  rw [configure, configure, htest]
  rcases testCompiler env' compilers' with ⟨verdict, probe⟩
  cases verdict with
  | error fault => exact ⟨rfl, rfl, rfl⟩
  | ok =>
    cases hchoice : choose env.target defaultRules env.enables with
    | ok e =>
      rw [H.choose_eq_ok_iff.1 hchoice, H.alike_target.ruled_eq]
      exact ⟨rfl, rfl, rfl⟩
    | error error =>
      -- the errors can differ in the target that they show, and no line shows them
      cases hchoice' : choose env'.target defaultRules env'.enables with
      | error error' => exact ⟨rfl, rfl, rfl⟩
      | ok e =>
        rw [H.choose_eq_ok_iff.2 hchoice'] at hchoice
        cases hchoice

/-- Families in another order, one of them twice and between stray commas, an override with another
value, and two variables of which the one is unset and the other not UTF-8. -/
theorem configure_shows_view_families :
    let env : Environment := fun key =>
      if key = "OUT_DIR" ∨ key = "RUSTC" then some [0x2f]
      else if key = "CARGO_CFG_TARGET_FAMILY" then some (Utf8.encode ",unix,posix".toList)
      else if key = "CARGO_CFG_TARGET_ENV" then some [0xff]
      else if key = "CARGO_FEATURE_ENGINE_UCRT" then some []
      else none
    let env' : Environment := fun key =>
      if key = "OUT_DIR" ∨ key = "RUSTC" then some [0x2f]
      else if key = "CARGO_CFG_TARGET_FAMILY" then some (Utf8.encode "posix,unix,,unix".toList)
      else if key = "CARGO_CFG_TARGET_ABI" then some []
      else if key = "CARGO_FEATURE_ENGINE_UCRT" then some [0x31]
      else if key = "CARGO_FEATURE_ENGINE_VSNPRINTF" then some [0xff]
      else none
    env.SameView env' ∧
      (configure env fun _ => .accepts).lines = (configure env' fun _ => .accepts).lines ∧
      (configure env fun _ => .accepts).probe = (configure env' fun _ => .accepts).probe ∧
      (configure env fun _ => .accepts).exitCode = (configure env' fun _ => .accepts).exitCode := by
  intro env env'
  have hfamily : env.target.family = ["unix", "posix"] := by decide +kernel
  have hfamily' : env'.target.family = ["posix", "unix", "unix"] := by decide +kernel
  have H : env.SameView env' := by
    refine ⟨rfl, rfl, fun e => ?_, fun key hkey => ?_, fun f => ?_⟩
    · rw [← enables_iff, ← enables_iff]
      cases e <;> decide +kernel
    · have hread : ∀ key ∈ ["CARGO_CFG_TARGET_OS", "CARGO_CFG_TARGET_ENV", "CARGO_CFG_TARGET_ABI"],
          env'.textOrEmpty key = env.textOrEmpty key := by decide +kernel
      refine ⟨_, env.readAs_textOrEmpty key, ?_⟩
      rw [← hread key hkey]
      exact env'.readAs_textOrEmpty key
    · rw [Environment.lists_iff, Environment.lists_iff, hfamily, hfamily']
      simp [or_comm]
  exact ⟨H, configure_shows_view env env' _ _ H fun _ _ => rfl⟩

end FormattedOutput.Selection
