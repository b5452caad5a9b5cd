/-
Purpose: The data-residency policy (`services/internal/compliance/policy.go`), and when it fails closed.
Trusted boundary: `strings.EqualFold`, which may be any comparison here
-/

namespace NuraOS.Compliance

/-- `ResidencyClass`. A policy file may hold any string. -/
abbrev ResidencyClass := String

def residencyLocal : ResidencyClass := "local"
def residencySovereign : ResidencyClass := "sovereign"
def residencyCrossBorder : ResidencyClass := "cross-border"

/-- `ProviderPolicy`. -/
structure ProviderPolicy where
  name : String
  residency : ResidencyClass
  allowSensitive : Bool

/-- `Policy`. -/
structure Policy where
  allowCrossBorder : Bool
  providers : List ProviderPolicy

namespace Policy

variable (equalFold : String → String → Bool)

/-- The first entry for a name. -/
def listed (p : Policy) (name : String) : Option ProviderPolicy :=
  p.providers.find? fun pp => equalFold pp.name name

/-- `ProviderForName`. -/
def providerForName (p : Policy) (name : String) : ProviderPolicy :=
  (p.listed equalFold name).getD
    { name := name, residency := residencyCrossBorder, allowSensitive := false }

/-- `CheckRoute`. -/
def checkRoute (p : Policy) (provider : String) (sensitive : Bool) : Except String Unit :=
  let pp := p.providerForName equalFold provider
  if sensitive ∧ ¬pp.allowSensitive then
    .error ("compliance: sensitive turn cannot be routed to " ++ provider ++ " (residency=" ++
      pp.residency ++ ", allow_sensitive=false)")
  else if pp.residency = residencyCrossBorder ∧ ¬p.allowCrossBorder then
    .error ("compliance: cross-border egress to " ++ provider ++ " is not permitted by policy")
  else
    .ok ()

end Policy

end NuraOS.Compliance

namespace NuraOS.Compliance.Policy

variable (equalFold : String → String → Bool) (p : Policy) (provider : String)

/-- The residencies that may see a sensitive turn. -/
def Trusted (residency : ResidencyClass) : Prop :=
  residency = residencyLocal ∨ residency = residencySovereign

/-- The listed residency of a provider is one of the trusted ones. -/
def ListedTrusted : Prop :=
  ∃ pp, p.listed equalFold provider = some pp ∧ Trusted pp.residency

/-- What the package promises: neither a sensitive turn nor, without leave for cross-border egress, any
turn goes to a provider that is not listed as trusted. -/
def FailsClosed : Prop :=
  (p.checkRoute equalFold provider true = .ok () → p.ListedTrusted equalFold provider) ∧
    (p.allowCrossBorder = false → ∀ sensitive,
      p.checkRoute equalFold provider sensitive = .ok () → p.ListedTrusted equalFold provider)

/-- The flags with which an entry that is not trusted is still refused. A residency that is not one of
the three is never cross-border egress. -/
def FlagsRefuse (pp : ProviderPolicy) : Prop :=
  if pp.residency = residencyCrossBorder then ¬(pp.allowSensitive ∧ p.allowCrossBorder)
  else p.allowCrossBorder ∧ ¬pp.allowSensitive

theorem checkRoute_eq_ok_iff (sensitive : Bool) :
    p.checkRoute equalFold provider sensitive = .ok () ↔
      (sensitive → (p.providerForName equalFold provider).allowSensitive) ∧
        ((p.providerForName equalFold provider).residency = residencyCrossBorder →
          p.allowCrossBorder) := by
  simp only [checkRoute]
  split
  case isTrue refused => simp_all
  case isFalse allowed => split <;> simp_all

/-- A route fails closed unless its provider is listed as untrusted and a flag lets it pass. -/
theorem failsClosed_iff :
    p.FailsClosed equalFold provider ↔
      ∀ pp, p.listed equalFold provider = some pp → Trusted pp.residency ∨ p.FlagsRefuse pp := by
  simp only [FailsClosed, ListedTrusted, checkRoute_eq_ok_iff, providerForName]
  cases p.listed equalFold provider with
  | none => simp
  | some pp =>
    by_cases trusted : Trusted pp.residency
    · simp [trusted]
    · -- Here the promise is that both calls fail, which is decided by the two flags.
      cases sensitive : pp.allowSensitive <;> cases border : p.allowCrossBorder <;>
        simp [FlagsRefuse, trusted, sensitive, border]

/-- A misspelt residency in a policy without cross-border egress. -/
def misspelt : Policy :=
  { allowCrossBorder := false
    providers := [{ name := "openai", residency := "crossborder", allowSensitive := false }] }

theorem misspelt_not_failsClosed : ¬misspelt.FailsClosed (· == ·) "openai" := by
  rintro ⟨-, closed⟩
  obtain ⟨pp, isListed, trusted⟩ := closed rfl false rfl
  cases isListed
  exact absurd trusted (by unfold Trusted; decide)

end NuraOS.Compliance.Policy
