import QueryConsole.Command.Run
import QueryConsole.Proofs.Output

set_option autoImplicit false

namespace QueryConsole.Command

variable {wording : Wording} {network : Network} {script : Script} {argv : List Text}

structure Reached (network : Network) (argv : List Text) (options : Options) (i : Invocation)
    (proxy : Proxy) : Prop where
  parsed : parse argv = .ok options
  resolved : Invocation.resolve options.args = .ok i
  connected : Proxy.resolve network options.endpoint = .ok proxy

theorem Reached.unique {options options' : Options} {i i' : Invocation} {proxy proxy' : Proxy}
    (h : Reached network argv options i proxy) (h' : Reached network argv options' i' proxy') :
    options = options' ∧ i = i' ∧ proxy = proxy' := by
  obtain ⟨hparse, hresolve, hproxy⟩ := h
  obtain ⟨hparse', hresolve', hproxy'⟩ := h'
  rw [hparse, Except.ok.injEq] at hparse'
  subst hparse'
  rw [hresolve, Except.ok.injEq] at hresolve'
  rw [hproxy, Except.ok.injEq] at hproxy'
  exact ⟨rfl, hresolve', hproxy'⟩

section Ended

variable {r : Finished}

section Reached

variable {options : Options} {i : Invocation} {proxy : Proxy}

end Reached

end Ended

end QueryConsole.Command
