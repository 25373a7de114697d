import Ironhide.Lib.Joining
import Ironhide.Model.Query

namespace Ironhide.Proofs.PathJoining
open Model Lib.Joining UrlBuilder

def texts (components : List String) : List (List Char) :=
  components.map fun component => (cStr component).toList

def path (p : Piece Char) : String := String.ofList p.stored

/-- What the builder has made of the components: each in a path of its own, which
begins with what was put in front of it. -/
structure Laid (b : UrlBuilder) (url : String) (components : List String)
    (ps : List (Piece Char)) : Prop where
  texts : ps.map Piece.text = texts components
  paths : b.paths = ps.map path
  gaps : ∀ p ∈ ps, p.gap = [] ∨ p.gap = [pathSeparator]
  build : b.build.toList = url.toList ++ ps.flatMap Piece.stored

/-- No call looks outside of a stored component, and in the URL components that are
not empty are one separator apart. -/
def Joined (url : String) (components : List String) : Prop :=
  ∃ b ps, components.foldlM addPath ⟨url, []⟩ = .ok b ∧ Laid b url components ps ∧
    Separated pathSeparator ps

/-- One call, on the builder and on its pieces. -/
theorem addPath_pieces (url : String) (ps : List (Piece Char)) (component : String) :
    addPath ⟨url, ps.map path⟩ component =
      match add pathSeparator ps (cStr component).toList with
      | some ps' => .ok ⟨url, ps'.map path⟩
      | none => .error .undefined := by
  have hplain : path ⟨[], (cStr component).toList⟩ = cStr component := by
    rw [path, Piece.stored, List.nil_append, String.ofList_toList]
  rcases List.eq_nil_or_concat ps with rfl | ⟨ps, p, rfl⟩
  · simp [addPath, add, hplain]
  · rw [List.concat_eq_append]
    have hlast : ((ps ++ [p]).map path).getLast? = some (path p) := by simp
    have hchar : (path p).toList = p.stored := String.toList_ofList
    have hnew (q : Piece Char) : (ps ++ [p] ++ [q]).map path = (ps ++ [p]).map path ++ [path q] :=
      List.map_append
    simp only [addPath, hlast, hchar, add_concat]
    cases hc : p.stored.getLast? with
    | none => rfl
    | some c =>
      simp only [Option.map_some, gapFor]
      by_cases h : c ≠ pathSeparator ∧ (cStr component).toList.head? ≠ some pathSeparator
      · rw [if_pos h, if_pos h, hnew]
        rfl
      · rw [if_neg h, if_neg h, hnew, hplain]

theorem foldlM_pieces (url : String) (components : List String) (ps : List (Piece Char)) :
    components.foldlM addPath ⟨url, ps.map path⟩ =
      match (texts components).foldlM (add pathSeparator) ps with
      | some ps' => .ok ⟨url, ps'.map path⟩
      | none => .error .undefined := by
  induction components generalizing ps with
  | nil => rfl
  | cons component components ih =>
    rw [List.foldlM_cons, addPath_pieces, texts, List.map_cons, List.foldlM_cons]
    cases hadd : add pathSeparator ps (cStr component).toList with
    | none => rfl
    | some ps' => exact ih ps'

theorem foldl_append (url : String) (ps : List (Piece Char)) :
    ((ps.map path).foldl (· ++ ·) url).toList = url.toList ++ ps.flatMap Piece.stored := by
  induction ps generalizing url with
  | nil => simp
  | cons p ps ih =>
    rw [List.map_cons, List.foldl_cons, ih, String.toList_append, path, String.toList_ofList,
      List.flatMap_cons, List.append_assoc]

theorem laid_join (url : String) {components : List String} {ps : List (Piece Char)}
    (h : join pathSeparator (texts components) = some ps) :
    components.foldlM addPath ⟨url, []⟩ = .ok ⟨url, ps.map path⟩ ∧
      Laid ⟨url, ps.map path⟩ url components ps := by
  have hrun := foldlM_pieces url components []
  have hfold : (texts components).foldlM (add pathSeparator) [] = some ps := h
  rw [hfold] at hrun
  obtain ⟨htexts, hgaps⟩ := join_eq_some pathSeparator h
  exact ⟨hrun, htexts, rfl, hgaps, foldl_append url ps⟩

/-- There is one way to take the stored paths apart. -/
theorem Laid.unique {b : UrlBuilder} {url : String} {components : List String}
    {ps qs : List (Piece Char)} (h : Laid b url components ps) (h' : Laid b url components qs) :
    ps = qs := by
  apply Piece.eq_of_map
  · have hpaths : (ps.map Piece.stored).map String.ofList = (qs.map Piece.stored).map String.ofList := by
      rw [List.map_map, List.map_map]
      exact h.paths.symm.trans h'.paths
    exact List.map_injective_iff.mpr (fun _ _ => String.ofList_injective) hpaths
  · rw [h.texts, h'.texts]

/-- The builder joins its components properly exactly when each fits behind those
before it: two in a row do not both bring a separator, and what follows an empty one
brings none and finds a text before that which is not empty and does not end in one. -/
theorem joined_iff (url : String) (components : List String) :
    Joined url components ↔ Joinable pathSeparator (texts components) := by
  rw [← join_iff]
  constructor
  · rintro ⟨b, qs, hrun, hlaid, hsep⟩
    cases hjoin : join pathSeparator (texts components) with
    | none =>
      have hfail := foldlM_pieces url components []
      have hfold : (texts components).foldlM (add pathSeparator) [] = none := hjoin
      rw [hfold] at hfail
      cases hrun.symm.trans hfail
    | some ps =>
      obtain ⟨hrun', hlaid'⟩ := laid_join url hjoin
      cases hrun.symm.trans hrun'
      exact ⟨ps, rfl, hlaid.unique hlaid' ▸ hsep⟩
  · rintro ⟨ps, hjoin, hsep⟩
    obtain ⟨hrun, hlaid⟩ := laid_join url hjoin
    exact ⟨_, ps, hrun, hlaid, hsep⟩

/-- The path of a query whose addresses have not been set: behind the second empty
component the last character of nothing is looked at. -/
theorem unset_addresses_undefined :
    ¬ ∀ (url : String) (components : List String), Joined url components := by
  intro h
  obtain ⟨b, ps, hrun, -, -⟩ := h "" ["endpoints/", "ingress", "", "", "0"]
  have hfail : ["endpoints/", "ingress", "", "", "0"].foldlM addPath ⟨"", []⟩ =
      .error .undefined := by decide
  cases hrun.symm.trans hfail

/-- No component is empty, and two separators are left between them. -/
example : (["a/", "/b"].foldlM addPath ⟨"", []⟩).map UrlBuilder.build = .ok "a//b" := by decide

end Ironhide.Proofs.PathJoining
