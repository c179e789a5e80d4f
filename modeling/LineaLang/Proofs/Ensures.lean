/-!
# `LineaLang.Proofs.Ensures` — what a computation ensures

Readings and runs are computations that carry a state and may fail. On every state that is as it should be a
computation ensures that the state is so afterwards, however it ends, that what it gives has some property, and that
it fails for an allowed reason only. Computations are put together in one way, so this is shown part by part.

## Contents

* `Expected` — an outcome as it should be.
* `Ensures` — what a computation ensures, with `Ensures.pure`, `Ensures.throw` and `Ensures.bind`.
-/

namespace LineaLang

variable {ε σ α β : Type}

/-- **An outcome is as expected**: a value with a property, or an error that is allowed; and the state is as it should
    be. -/
inductive Expected (I : σ → Prop) (post : α → Prop) (allowed : ε → Prop) : EStateM.Result ε σ α → Prop where
  | ok {a : α} {s : σ} (hs : I s) (ha : post a) : Expected I post allowed (.ok a s)
  | error {e : ε} {s : σ} (hs : I s) (he : allowed e) : Expected I post allowed (.error e s)

/-- **What a computation ensures** on every state that is as it should be. -/
def Ensures (I : σ → Prop) (c : EStateM ε σ α) (post : α → Prop) (allowed : ε → Prop) : Prop :=
  ∀ s, I s → Expected I post allowed (c s)

namespace Ensures

variable {I : σ → Prop} {allowed : ε → Prop} {c : EStateM ε σ α} {post : α → Prop}

theorem pure {a : α} (ha : post a) : Ensures I (pure a) post allowed := fun _ hs => .ok hs ha

theorem throw {e : ε} (he : allowed e) : Ensures I (throw e : EStateM ε σ α) post allowed :=
  fun _ hs => .error hs he

/-- The state may be described in other words, and more may be allowed. -/
theorem mono {I' : σ → Prop} {allowed' : ε → Prop} (hc : Ensures I c post allowed) (hI : ∀ s, I' s ↔ I s)
    (hallowed : ∀ e, allowed e → allowed' e) : Ensures I' c post allowed' := by
  intro s hs
  have hend := hc s ((hI s).mp hs)
  generalize c s = outcome at hend ⊢
  cases hend with
  | ok hs' ha => exact .ok ((hI _).mpr hs') ha
  | error hs' he => exact .error ((hI _).mpr hs') (hallowed _ he)

/-- What is given may be described by less. -/
theorem imp {post' : α → Prop} (hc : Ensures I c post allowed) (hpost : ∀ a, post a → post' a) :
    Ensures I c post' allowed := by
  intro s hs
  have hend := hc s hs
  generalize c s = outcome at hend ⊢
  cases hend with
  | ok hs' ha => exact .ok hs' (hpost _ ha)
  | error hs' he => exact .error hs' he

/-- **One after the other.** -/
theorem bind {f : α → EStateM ε σ β} {post' : β → Prop} (hc : Ensures I c post allowed)
    (hf : ∀ a, post a → Ensures I (f a) post' allowed) : Ensures I (c >>= f) post' allowed := by
  intro s hs
  have hfirst := hc s hs
  simp only [Bind.bind, EStateM.bind]
  generalize c s = first at hfirst ⊢
  cases hfirst with
  | ok hs' ha => exact hf _ ha _ hs'
  | error hs' he => exact .error hs' he

end Ensures

end LineaLang
