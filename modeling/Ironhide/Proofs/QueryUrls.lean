import Ironhide.Model.Query

namespace Ironhide.Proofs.QueryUrls
open Model Lib.Text UrlBuilder

/-- A component that a URL keeps as it is. -/
structure Plain (s : String) : Prop where
  nonempty : s.toList ≠ []
  noSlash : '/' ∉ s.toList
  noNul : '\x00' ∉ s.toList

theorem Plain.cStr {s : String} (h : Plain s) : cStr s = s := by
  have hall : ∀ c ∈ s.toList, decide (c ≠ '\x00') = true := by
    intro c hc
    simpa using fun heq : c = '\x00' => h.noNul (heq ▸ hc)
  rw [Model.cStr, List.takeWhile_eq_self_iff.mpr hall, String.ofList_toList]

theorem plain_toString (n : Nat) : Plain (Model.toString n) := by
  have htext : (Model.toString n).toList = decimal n := String.toList_ofList
  have hnot : ∀ c, c.isDigit = false → c ∉ decimal n := by
    intro c hc hmem
    rw [decimal_isDigit hmem] at hc
    cases hc
  refine ⟨?_, ?_, ?_⟩ <;> rw [htext]
  · exact Nat.toDigits_ne_nil
  · exact hnot _ (by decide)
  · exact hnot _ (by decide)

theorem intercalate_concat {x : List Char} {xs : List (List Char)} (h : xs ≠ []) :
    ['/'].intercalate (xs ++ [x]) = ['/'].intercalate xs ++ '/' :: x := by
  induction xs with
  | nil => exact absurd rfl h
  | cons y xs ih =>
    by_cases hxs : xs = []
    · subst hxs
      simp
    · rw [List.cons_append, List.intercalate_cons_of_ne_nil (by simp),
        List.intercalate_cons_of_ne_nil hxs, ih hxs]
      simp

/-- The URL so far is made of these components, and the next one needs a separator. -/
structure Made (b : UrlBuilder) (components : List (List Char)) : Prop where
  components_ne : components ≠ []
  build : b.build.toList = ['/'].intercalate components
  last : ∃ last c, b.paths.getLast? = some last ∧ last.toList.getLast? = some c ∧ c ≠ '/'

theorem build_concat (b : UrlBuilder) (path : String) :
    UrlBuilder.build { b with paths := b.paths ++ [path] } = b.build ++ path := by
  simp [build]

theorem Made.addPath {b : UrlBuilder} {components : List (List Char)} (hb : Made b components)
    {s : String} (hs : Plain s) :
    ∃ b', b.addPath s = .ok b' ∧ Made b' (components ++ [s.toList]) := by
  obtain ⟨last, c, hlast, hc, hslash⟩ := hb.last
  have hhead : s.toList.head? ≠ some '/' := fun h => hs.noSlash (List.mem_of_head? h)
  have hadd : b.addPath s =
      .ok { b with paths := b.paths ++ [String.ofList (pathSeparator :: s.toList)] } := by
    simp only [UrlBuilder.addPath, hlast, hc, hs.cStr]
    exact if_pos ⟨hslash, hhead⟩
  obtain ⟨cs, d, hd⟩ := List.eq_nil_or_concat s.toList |>.resolve_left hs.nonempty
  refine ⟨_, hadd, by simp, ?_, String.ofList (pathSeparator :: s.toList), d, ?_, ?_, ?_⟩
  · rw [build_concat, String.toList_append, hb.build, intercalate_concat hb.components_ne,
      String.toList_ofList]
    rfl
  · simp
  · simp [hd, List.getLast?_cons]
  · intro heq
    exact hs.noSlash (by rw [hd, heq]; simp)

/-- The role a query asks about: its endpoint's other one, or the one that was set. -/
def role (q : Query) : String :=
  match q.endpoints with
  | [e] => if e.typeOfProxy = .ingressT then "egress" else "ingress"
  | _ => if q.type = some .ingressT then "ingress" else "egress"

def fields (q : Query) : List String :=
  [role q, q.ipSrc, q.ipDst, Model.toString q.portSrc.toNat, Model.toString q.portDst.toNat,
    q.idSfc, q.prt.text] ++ q.endpoints.flatMap fun e => [e.ip, e.socketId]

/-- The strings of the query can stand in a URL, and it has one endpoint at most. -/
structure PlainQuery (q : Query) : Prop where
  ipSrc : Plain q.ipSrc
  ipDst : Plain q.ipDst
  idSfc : Plain q.idSfc
  endpoints : ∀ e ∈ q.endpoints, Plain e.ip ∧ Plain e.socketId
  atMostOne : q.endpoints.length ≤ 1

theorem plain_text (prt : ProtocolType) : Plain prt.text := by
  cases prt with
  | tcp => exact ⟨by decide, by decide, by decide⟩
  | udp => exact ⟨by decide, by decide, by decide⟩

def Role (r : String) : Prop := r = "ingress" ∨ r = "egress"

theorem role_iff (q : Query) : Role (role q) := by
  unfold role Role
  split <;> split <;> simp

theorem Role.plain {r : String} (h : Role r) : Plain r := by
  rcases h with rfl | rfl <;> exact ⟨by decide, by decide, by decide⟩

/-- The prefix ends in a separator, and the role goes behind it without another. -/
theorem addPath_role {r : String} (h : Role r) :
    ∃ b', (UrlBuilder.mk "" [endpointPrefix]).addPath r = .ok b' ∧
      Made b' ["endpoints".toList, r.toList] := by
  rcases h with rfl | rfl
  · refine ⟨⟨"", [endpointPrefix, "ingress"]⟩, by decide, by simp, by simp [build, endpointPrefix],
      "ingress", 's', ?_, ?_, ?_⟩ <;> decide
  · refine ⟨⟨"", [endpointPrefix, "egress"]⟩, by decide, by simp, by simp [build, endpointPrefix],
      "egress", 's', ?_, ?_, ?_⟩ <;> decide

theorem Made.addFields {b : UrlBuilder} {components : List (List Char)} (hb : Made b components)
    {q : Query} (hq : PlainQuery q) :
    ∃ b', q.addFields b = .ok b' ∧ Made b' (components ++ ([q.ipSrc, q.ipDst,
      Model.toString q.portSrc.toNat, Model.toString q.portDst.toNat, q.idSfc,
      q.prt.text].map String.toList)) := by
  obtain ⟨b₁, h₁, hb₁⟩ := hb.addPath hq.ipSrc
  obtain ⟨b₂, h₂, hb₂⟩ := hb₁.addPath hq.ipDst
  obtain ⟨b₃, h₃, hb₃⟩ := hb₂.addPath (plain_toString q.portSrc.toNat)
  obtain ⟨b₄, h₄, hb₄⟩ := hb₃.addPath (plain_toString q.portDst.toNat)
  obtain ⟨b₅, h₅, hb₅⟩ := hb₄.addPath hq.idSfc
  obtain ⟨b₆, h₆, hb₆⟩ := hb₅.addPath (plain_text q.prt)
  refine ⟨b₆, ?_, by simpa using hb₆⟩
  simp only [Query.addFields, h₁, h₂, h₃, h₄, h₅, h₆, bind, Except.bind]

theorem toUrl_eq {q : Query} (hq : PlainQuery q) : ∃ url, q.toUrl = .ok url ∧
    url.toList = ['/'].intercalate ("endpoints".toList :: (fields q).map String.toList) := by
  have hprefix : UrlBuilder.empty.addPath endpointPrefix = .ok ⟨"", [endpointPrefix]⟩ := by decide
  obtain ⟨b₁, h₁, hb₁⟩ := addPath_role (role_iff q)
  obtain ⟨b₂, h₂, hb₂⟩ := hb₁.addFields hq
  rcases hendpoints : q.endpoints with _ | ⟨e, _ | ⟨e', es⟩⟩
  · have hrole : role q = if q.type = some .ingressT then "ingress" else "egress" := by
      simp [role, hendpoints]
    refine ⟨b₂.build, ?_, ?_⟩
    · simp only [Query.toUrl, hprefix, hendpoints, ← hrole, h₁, h₂, bind, Except.bind]
    · rw [hb₂.build]
      simp [fields, hendpoints]
  · have hrole : role q = if e.typeOfProxy = .ingressT then "egress" else "ingress" := by
      simp [role, hendpoints]
    have he := hq.endpoints e (by simp [hendpoints])
    obtain ⟨b₃, h₃, hb₃⟩ := hb₂.addPath he.1
    obtain ⟨b₄, h₄, hb₄⟩ := hb₃.addPath he.2
    refine ⟨b₄.build, ?_, ?_⟩
    · simp only [Query.toUrl, hprefix, hendpoints, ← hrole, h₁, h₂, h₃, h₄, bind, Except.bind]
    · rw [hb₄.build]
      simp [fields, hendpoints]
  · have hone := hq.atMostOne
    simp [hendpoints] at hone

theorem noSlash_fields {q : Query} (hq : PlainQuery q) : ∀ s ∈ fields q, '/' ∉ s.toList := by
  intro s hs
  rcases List.mem_append.mp hs with hs | hs
  · simp only [List.mem_cons, List.not_mem_nil, or_false] at hs
    rcases hs with rfl | rfl | rfl | rfl | rfl | rfl | rfl
    · exact (role_iff q).plain.noSlash
    · exact hq.ipSrc.noSlash
    · exact hq.ipDst.noSlash
    · exact (plain_toString _).noSlash
    · exact (plain_toString _).noSlash
    · exact hq.idSfc.noSlash
    · exact (plain_text _).noSlash
  · obtain ⟨e, he, hs⟩ := List.mem_flatMap.mp hs
    have hplain := hq.endpoints e he
    simp only [List.mem_cons, List.not_mem_nil, or_false] at hs
    rcases hs with rfl | rfl
    · exact hplain.1.noSlash
    · exact hplain.2.noSlash

/-- Splitting the URL gives the fields back. -/
theorem split_toUrl {q : Query} (hq : PlainQuery q) : ∃ url, q.toUrl = .ok url ∧
    url.toList.splitOn '/' = "endpoints".toList :: (fields q).map String.toList := by
  obtain ⟨url, hurl, heq⟩ := toUrl_eq hq
  refine ⟨url, hurl, ?_⟩
  rw [heq]
  refine List.splitOn_intercalate _ (fun cs hcs => ?_) (by simp)
  rcases List.mem_cons.mp hcs with rfl | hcs
  · decide
  · obtain ⟨s, hs, rfl⟩ := List.mem_map.mp hcs
    exact noSlash_fields hq s hs

/-- Everything two URLs have in common when they are the same. -/
structure SameFields (q q' : Query) : Prop where
  role : role q = role q'
  ipSrc : q.ipSrc = q'.ipSrc
  ipDst : q.ipDst = q'.ipDst
  portSrc : q.portSrc = q'.portSrc
  portDst : q.portDst = q'.portDst
  idSfc : q.idSfc = q'.idSfc
  prt : q.prt = q'.prt
  endpoints : q.endpoints.map (fun e => (e.ip, e.socketId)) =
    q'.endpoints.map (fun e => (e.ip, e.socketId))

theorem text_injective {a b : ProtocolType} (h : a.text = b.text) : a = b := by
  cases a <;> cases b <;> first | rfl | exact absurd h (by decide)

theorem port_injective {a b : BitVec 16} (h : Model.toString a.toNat = Model.toString b.toNat) :
    a = b :=
  BitVec.eq_of_toNat_eq (toString_injective h)

theorem pairs_injective {l l' : List DbEndpoint}
    (h : (l.flatMap fun e => [e.ip, e.socketId]) = l'.flatMap fun e => [e.ip, e.socketId]) :
    l.map (fun e => (e.ip, e.socketId)) = l'.map (fun e => (e.ip, e.socketId)) := by
  induction l generalizing l' with
  | nil =>
    cases l' with
    | nil => rfl
    | cons e' l' => cases h
  | cons e l ih =>
    cases l' with
    | nil => cases h
    | cons e' l' =>
      simp only [List.flatMap_cons, List.cons_append, List.nil_append, List.cons.injEq] at h
      simp [h.1, h.2.1, ih h.2.2]

theorem fields_injective {q q' : Query} (h : fields q = fields q') : SameFields q q' := by
  simp only [fields, List.cons_append, List.nil_append, List.cons.injEq] at h
  obtain ⟨hrole, hsrc, hdst, hportSrc, hportDst, hsfc, hprt, hendpoints⟩ := h
  exact ⟨hrole, hsrc, hdst, port_injective hportSrc, port_injective hportDst, hsfc,
    text_injective hprt, pairs_injective hendpoints⟩

/-- A URL gives back the fields of its query, so that two queries with one URL agree
on them; with endpoints of both types there is no URL. -/
theorem urls_unambiguous (q q' : Query) :
    (PlainQuery q → ∃ url, q.toUrl = .ok url ∧
      url.toList.splitOn '/' = "endpoints".toList :: (fields q).map String.toList) ∧
    (PlainQuery q → PlainQuery q' → q.toUrl = q'.toUrl → SameFields q q') ∧
    ((∀ type, ∃ e ∈ q.endpoints, e.typeOfProxy = type) → q.toUrl =
      .error (.queryAmbiguous "More than one endpoint for thisquery: which shouldI use?")) := by
  refine ⟨split_toUrl, fun hq hq' h => ?_, fun h => ?_⟩
  · obtain ⟨url, hurl, hsplit⟩ := split_toUrl hq
    obtain ⟨url', hurl', hsplit'⟩ := split_toUrl hq'
    rw [hurl, hurl'] at h
    cases h
    have hmap := (List.cons.inj (hsplit.symm.trans hsplit')).2
    exact fields_injective (List.map_injective_iff.mpr (fun _ _ => String.toList_inj.mp) hmap)
  · have hprefix : UrlBuilder.empty.addPath endpointPrefix = .ok ⟨"", [endpointPrefix]⟩ := by decide
    obtain ⟨e, he, hin⟩ := h .ingressT
    obtain ⟨e', he', hout⟩ := h .egressT
    rcases hendpoints : q.endpoints with _ | ⟨e₁, _ | ⟨e₂, es⟩⟩
    · rw [hendpoints] at he
      cases he
    · rw [hendpoints, List.mem_singleton] at he he'
      subst he he'
      rw [hin] at hout
      cases hout
    · simp only [Query.toUrl, hprefix, hendpoints, bind, Except.bind]

def sample : Query :=
  { itemId := "", ipSrc := "10.0.0.1", ipDst := "10.0.1.1", portSrc := 5001, portDst := 80,
    prt := .udp, idSfc := "7", endpoints := [⟨"10.0.2.1", "4", .egressT⟩], type := none }

theorem sample_url : ∃ url, sample.toUrl = .ok url ∧
    url.toList.splitOn '/' = "endpoints".toList :: (fields sample).map String.toList := by
  have plain (s : String) (h : s.toList ≠ [] ∧ '/' ∉ s.toList ∧ '\x00' ∉ s.toList) : Plain s :=
    ⟨h.1, h.2.1, h.2.2⟩
  have hendpoint : Plain "10.0.2.1" ∧ Plain "4" := ⟨plain _ (by decide), plain _ (by decide)⟩
  exact (urls_unambiguous sample sample).1 ⟨plain _ (by decide), plain _ (by decide),
    plain _ (by decide), by simpa [sample] using hendpoint, by decide⟩

end Ironhide.Proofs.QueryUrls
