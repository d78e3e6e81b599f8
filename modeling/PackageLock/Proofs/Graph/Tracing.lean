import Mathlib.Data.Finset.Dedup
import Mathlib.Data.Finset.Empty
import PackageLock.Proofs.Graph.Listing
import PackageLock.Proofs.Graph.Operations

/-!
# Tracing is following edges

In a well-formed graph a trace finds what one or more edges lead to, and so never its start. What is
traced from a node that has been found is found as well, and that node itself drops out
(`WellFormed.traced_ssubset`): whoever traces on from what a trace has found comes to an end. Main
statement: so it is after any operations on a graph (`afterAll_trace`).
-/

set_option autoImplicit false

open Relation (TransGen)

namespace PackageLock

namespace Graph

variable {g : Graph} {id key : String}

/-! ## Tracing on from what has been found -/

/-- The identifiers that a trace finds; none if it fails. -/
def traced (g : Graph) (id : String) : Finset String :=
  match g.trace id with
  | .ok nodes => (nodes.map Node.id).toFinset
  | .error _ => ∅

/-- The traced identifiers are those of the nodes of the trace. -/
theorem traced_eq {nodes : List Node} (htrace : g.trace id = .ok nodes) :
    g.traced id = (nodes.map Node.id).toFinset := by
  rw [traced, htrace]

/-- In a well-formed graph the traced identifiers are those that arrows lead to, over one step or more. -/
theorem WellFormed.mem_traced (h : g.WellFormed) : key ∈ g.traced id ↔ TransGen g.Arrow id key := by
  by_cases hid : id ∈ g.ids
  · obtain ⟨nodes, htrace, _, _, hkeys⟩ := h.trace_eq hid
    rw [traced_eq htrace, List.mem_toFinset, hkeys]
  · rw [traced, (trace_eq_error_iff h.indexed).mpr hid]
    refine iff_of_false (Finset.notMem_empty key) fun path => hid ?_
    obtain ⟨_, ⟨e, he, rfl, _⟩, _⟩ := TransGen.head'_iff.mp path
    exact h.source_mem e he

/-- A trace from what has been found finds less. -/
theorem WellFormed.traced_ssubset (h : g.WellFormed) (found : key ∈ g.traced id) :
    g.traced key ⊂ g.traced id := by
  have path := h.mem_traced.mp found
  refine Finset.ssubset_iff_subset_ne.mpr ⟨fun other hother => ?_, fun same => ?_⟩
  · exact h.mem_traced.mpr (path.trans (h.mem_traced.mp hother))
  · rw [← same] at found
    exact h.acyclic key (h.mem_traced.mp found)

/-- So tracing on from what has been found comes to an end. -/
theorem WellFormed.wellFounded_traced (h : g.WellFormed) :
    WellFounded fun key id => key ∈ g.traced id :=
  Subrelation.wf h.traced_ssubset (InvImage.wf g.traced wellFounded_lt)

/-! ## After any operations -/

/-- After any sequence of operations, whichever of them have failed, tracing is following edges. A trace
fails exactly if its start is no node, and says so. Otherwise it lists, in ascending order, what one or
more edges lead to, and thus never its start, each identifier with the node that the graph has for it. A
trace from anything on the list finds some of the list and not all of it, so that tracing on and on comes
to an end. -/
theorem afterAll_trace (operations : List Operation) (id : String) :
    let g := afterAll operations
    (g.trace id = .error (.nodeNotFound id) ↔ id ∉ g.ids) ∧
    (id ∈ g.ids → ∃ nodes, g.trace id = .ok nodes ∧ (nodes.map Node.id).Pairwise (· < ·) ∧
      (∀ key, key ∈ nodes.map Node.id ↔ TransGen g.Arrow id key) ∧ id ∉ nodes.map Node.id ∧
      (∀ node ∈ nodes, g.find? node.id = some node) ∧
      ∀ key ∈ nodes.map Node.id, ∃ below, g.trace key = .ok below ∧
        (below.map Node.id).toFinset ⊂ (nodes.map Node.id).toFinset) ∧
    WellFounded fun key id => ∃ nodes, g.trace id = .ok nodes ∧ key ∈ nodes.map Node.id := by
  intro g
  have h : g.WellFormed := afterAll_wellFormed operations
  refine ⟨trace_eq_error_iff h.indexed, fun hid => ?_, ?_⟩
  · obtain ⟨nodes, htrace, ascends, hfind, hkeys⟩ := h.trace_eq hid
    refine ⟨nodes, htrace, ascends, hkeys, fun hmem => h.acyclic id ((hkeys id).mp hmem), hfind, ?_⟩
    intro key hkey
    obtain ⟨before, _, last⟩ := TransGen.tail'_iff.mp ((hkeys key).mp hkey)
    obtain ⟨below, hbelow, _⟩ := h.trace_eq (h.closed before key last)
    have less : g.traced key ⊂ g.traced id :=
      h.traced_ssubset (h.mem_traced.mpr ((hkeys key).mp hkey))
    rw [traced_eq htrace, traced_eq hbelow] at less
    exact ⟨below, hbelow, less⟩
  · refine Subrelation.wf ?_ h.wellFounded_traced
    rintro key id ⟨nodes, htrace, hkey⟩
    rwa [traced_eq htrace, List.mem_toFinset]

/-- A diamond whose lower end was to be linked back to its upper one. -/
theorem afterAll_trace_of_refused :
    let on (id : String) : Dependency := ⟨id, .provider, none⟩
    let diamond : List Package :=
      [⟨"a", "v1", [on "b", on "c"]⟩, ⟨"b", "v1", [on "d"]⟩, ⟨"c", "v1", [on "d"]⟩]
    let d : Node := .resolved ⟨"d", "v1", [on "a"]⟩
    let g := afterAll [.ofPackages diamond, .upsert [d]]
    "a" ∈ g.ids ∧ ∃ nodes, g.trace "a" = .ok nodes ∧ nodes.map Node.id = ["b", "c", "d"] ∧
      g.find? "d" = some d ∧
      ∃ below, g.trace "b" = .ok below ∧
        (below.map Node.id).toFinset ⊂ (nodes.map Node.id).toFinset := by
  intro on diamond d g
  obtain ⟨hids, hkeys, hfind⟩ : g.ids = ["a", "b", "c", "d"] ∧
      (g.trace "a").map (·.map Node.id) = .ok ["b", "c", "d"] ∧ g.find? "d" = some d := by
    simp only [g, d, diamond, on]
    refine ⟨?_, ?_, ?_⟩ <;> cbv
  have hid : "a" ∈ g.ids := by rw [hids]; simp
  obtain ⟨_, found, _⟩ := afterAll_trace [.ofPackages diamond, .upsert [d]] "a"
  obtain ⟨nodes, htrace, _, _, _, _, less⟩ := found hid
  have hnodes : nodes.map Node.id = ["b", "c", "d"] := by
    have hkeys' : (g.trace "a").map (·.map Node.id) = .ok (nodes.map Node.id) :=
      congrArg (Except.map _) htrace
    exact Except.ok.inj (hkeys'.symm.trans hkeys)
  exact ⟨hid, nodes, htrace, hnodes, hfind, less "b" (by rw [hnodes]; simp)⟩

end Graph

end PackageLock
