import Ironhide.Model.Address

namespace Ironhide.Proofs.Addresses
open Model Lib.Text

variable {cs url a b : List Char} {c : Char}

def upTo (c : Char) (cs : List Char) : List Char := cs.takeWhile (· ≠ c)

theorem upTo_of_not_mem (h : c ∉ cs) : upTo c cs = cs := by
  refine List.takeWhile_eq_self_iff.mpr fun d hd => ?_
  simpa using fun heq : d = c => h (heq ▸ hd)

theorem upTo_append (h : c ∉ a) : upTo c (a ++ c :: b) = a := by
  have ha : ∀ d ∈ a, decide (d ≠ c) = true := by
    intro d hd
    simpa using fun heq : d = c => h (heq ▸ hd)
  rw [upTo, List.takeWhile_append_of_pos ha, List.takeWhile_cons_of_neg (by simp), List.append_nil]

theorem toNat_npos : npos.toNat = 2^64 - 1 := rfl

theorem findFirstOf_of_not_mem (h : c ∉ cs) : findFirstOf cs c = npos := if_neg h

theorem findFirstOf_append (h : c ∉ a) : findFirstOf (a ++ c :: b) c = BitVec.ofNat 64 a.length := by
  simp [findFirstOf, List.idxOf_append, h]

theorem take_findFirstOf (h : cs.length < npos.toNat) (c : Char) :
    cs.take (findFirstOf cs c).toNat = upTo c cs := by
  by_cases hc : c ∈ cs
  · obtain ⟨a, b, rfl, ha⟩ := List.eq_append_cons_of_mem hc
    rw [toNat_npos, List.length_append] at h
    have hlen : a.length < 2^64 := by omega
    rw [findFirstOf_append ha, upTo_append ha, BitVec.toNat_ofNat, Nat.mod_eq_of_lt hlen,
      List.take_left]
  · rw [findFirstOf_of_not_mem hc, upTo_of_not_mem hc]
    exact List.take_of_length_le (by omega)

theorem substr_ok {pos n : BitVec 64} (h : pos.toNat ≤ cs.length) :
    substr cs pos n = .ok ((cs.drop pos.toNat).take n.toNat) :=
  if_neg (by omega)

theorem substr_zero (n : BitVec 64) : substr cs 0 n = .ok (cs.take n.toNat) :=
  substr_ok (Nat.zero_le _)

/-- The text that `address_parse` converts to the port. A missing separator does
not show: `npos + 1` is 0, and a count behind the end is cut. -/
def portText (url : List Char) : List Char :=
  if portSeparator ∈ url then
    let host := upTo portSeparator url
    let rest := url.drop (host.length + 1)
    if pathSeparator ∈ host then rest else upTo pathSeparator rest
  else upTo pathSeparator url

theorem portText_append (h : portSeparator ∉ a) : portText (a ++ portSeparator :: b) =
    if pathSeparator ∈ a then b else upTo pathSeparator b := by
  have hdrop : (a ++ portSeparator :: b).drop (a.length + 1) = b := by
    rw [← List.drop_drop, List.drop_left]
    rfl
  simp [portText, upTo_append h, hdrop]

theorem separators_ne : pathSeparator ≠ portSeparator := by decide

/-- The count `found1 - found - 1` wraps around when the path comes first. -/
theorem toNat_count {i j : Nat} (hi : i < 2^64 - 1) (hj : j < 2^64) :
    (BitVec.ofNat 64 j - BitVec.ofNat 64 i - 1).toNat =
      if i < j then j - i - 1 else 2^64 + j - i - 1 := by
  have hone : (1 : BitVec 64).toNat = 1 := rfl
  simp only [BitVec.toNat_sub, BitVec.toNat_ofNat, hone]
  split <;> omega

/-- How far behind the separator the text goes, when there is one. -/
theorem take_count (ha : portSeparator ∉ a)
    (h : (a ++ portSeparator :: b).length < npos.toNat) :
    b.take (findFirstOf (a ++ portSeparator :: b) pathSeparator -
      findFirstOf (a ++ portSeparator :: b) portSeparator - 1).toNat =
    if pathSeparator ∈ a then b else upTo pathSeparator b := by
  rw [toNat_npos, List.length_append, List.length_cons] at h
  have hi : a.length < 2^64 - 1 := by omega
  rw [findFirstOf_append ha]
  by_cases hslash : pathSeparator ∈ a
  · obtain ⟨a₁, a₂, rfl, ha₁⟩ := List.eq_append_cons_of_mem hslash
    have hlt : a₁.length < (a₁ ++ pathSeparator :: a₂).length := by simp
    rw [if_pos hslash, List.append_assoc, List.cons_append, findFirstOf_append ha₁,
      toNat_count hi (by omega), if_neg (by omega)]
    exact List.take_of_length_le (by omega)
  · rw [if_neg hslash]
    by_cases hb : pathSeparator ∈ b
    · obtain ⟨b₁, b₂, rfl, hb₁⟩ := List.eq_append_cons_of_mem hb
      rw [List.length_append] at h
      have hbefore : pathSeparator ∉ a ++ portSeparator :: b₁ := by
        simp [hslash, hb₁, separators_ne]
      have hj : (a ++ portSeparator :: b₁).length = a.length + 1 + b₁.length := by
        rw [List.length_append, List.length_cons]
        omega
      have hcount : a.length + 1 + b₁.length - a.length - 1 = b₁.length := by omega
      rw [← List.cons_append, ← List.append_assoc, findFirstOf_append hbefore, hj,
        toNat_count hi (by omega), if_pos (by omega), hcount, List.take_left, upTo_append hb₁]
    · have hnone : pathSeparator ∉ a ++ portSeparator :: b := by
        simp [hslash, hb, separators_ne]
      have hnpos : npos = BitVec.ofNat 64 (2^64 - 1) := rfl
      rw [findFirstOf_of_not_mem hnone, upTo_of_not_mem hb, hnpos, toNat_count hi (by omega),
        if_pos (by omega)]
      exact List.take_of_length_le (by omega)

theorem substr_port (h : url.length < npos.toNat) :
    substr url (findFirstOf url portSeparator + 1)
      (findFirstOf url pathSeparator - findFirstOf url portSeparator - 1) = .ok (portText url) := by
  by_cases hcolon : portSeparator ∈ url
  · obtain ⟨a, b, rfl, ha⟩ := List.eq_append_cons_of_mem hcolon
    have hlen := h
    rw [toNat_npos, List.length_append, List.length_cons] at hlen
    have hone : (1 : BitVec 64).toNat = 1 := rfl
    have hpos : (findFirstOf (a ++ portSeparator :: b) portSeparator + 1).toNat = a.length + 1 := by
      rw [findFirstOf_append ha, BitVec.toNat_add, BitVec.toNat_ofNat, hone]
      omega
    rw [substr_ok (by rw [hpos]; simp), hpos, portText_append ha, ← take_count ha h,
      ← List.drop_drop, List.drop_left]
    rfl
  · have hpos : npos + 1 = 0 := by decide
    have hcount : findFirstOf url pathSeparator - npos - 1 = findFirstOf url pathSeparator := by
      rw [BitVec.sub_sub, hpos]
      exact BitVec.sub_zero _
    rw [findFirstOf_of_not_mem hcolon, hpos, hcount, substr_zero, take_findFirstOf h, portText,
      if_neg hcolon]

/-- `address_parse` takes the host up to the first colon and the port from `portText`. -/
theorem addressParse_eq (h : url.length < npos.toNat) : addressParse url =
    (Model.stoul (portText url)).map fun v => (upTo portSeparator url, v.setWidth 16) := by
  simp only [addressParse, substr_zero, take_findFirstOf h, substr_port h]
  change (Model.stoul (portText url) >>= fun v => .ok (upTo portSeparator url, v.setWidth 16)) = _
  cases Model.stoul (portText url) with
  | error e => rfl
  | ok v => rfl

/-- What `address_parse` is given: one character more than the prefix is cut off. -/
def urlOf (cs : List Char) : List Char :=
  if prefixCheck cs then cs.drop (httpPrefix.length + 1) else cs

theorem prefixCheck_iff : prefixCheck cs = true ↔ ∃ rest, cs = httpPrefix ++ rest := by
  rw [prefixCheck, List.isPrefixOf_iff_prefix]
  constructor
  · rintro ⟨rest, h⟩
    exact ⟨rest, h.symm⟩
  · rintro ⟨rest, h⟩
    exact ⟨rest, h.symm⟩

theorem findFirstOf_prefix (rest : List Char) :
    findFirstOf (httpPrefix ++ rest) pathSeparator + 3 = 8 := by
  have h : findFirstOf (['h', 't', 't', 'p', ':'] ++ pathSeparator :: pathSeparator :: rest)
      pathSeparator = 5 := findFirstOf_append (by decide)
  have hshape : httpPrefix ++ rest =
    ['h', 't', 't', 'p', ':'] ++ pathSeparator :: pathSeparator :: rest := rfl
  rw [hshape, h]
  rfl

theorem parse_eq {s : String} (h : s.toList.length < npos.toNat) : Address.parse s =
    if s.toList = httpPrefix then .error .outOfRange
    else (Model.stoul (portText (urlOf s.toList))).map fun v =>
      ⟨String.ofList (upTo portSeparator (urlOf s.toList)), v.setWidth 16, prefixCheck s.toList⟩ := by
  generalize hcs : s.toList = cs at h
  unfold Address.parse
  rw [hcs]
  by_cases hp : prefixCheck cs = true
  · obtain ⟨rest, rfl⟩ := prefixCheck_iff.mp hp
    simp only [hp, ↓reduceIte, urlOf, findFirstOf_prefix, substr_zero]
    cases rest with
    | nil => rfl
    | cons c rest =>
      have hne : httpPrefix ++ c :: rest ≠ httpPrefix := by simp
      have hlen : rest.length < npos.toNat := by
        rw [List.length_append, List.length_cons] at h
        omega
      have hnew : substr (httpPrefix ++ c :: rest) 8 npos = .ok rest := by
        rw [substr_ok (by simp [httpPrefix])]
        exact congrArg Except.ok (List.take_of_length_le (Nat.le_of_lt hlen))
      have hdrop : (httpPrefix ++ c :: rest).drop (httpPrefix.length + 1) = rest := rfl
      rw [if_neg hne, hnew, hdrop]
      change (addressParse rest >>= fun p => .ok (Address.mk (String.ofList p.1) p.2 true)) = _
      rw [addressParse_eq hlen]
      cases Model.stoul (portText rest) with
      | error e => rfl
      | ok v => rfl
  · have hne : cs ≠ httpPrefix := by
      intro heq
      exact hp (heq ▸ rfl)
    rw [if_neg hne, urlOf, if_neg hp, if_neg hp]
    change (addressParse cs >>= fun p => .ok (Address.mk (String.ofList p.1) p.2 false)) = _
    rw [addressParse_eq h, Bool.eq_false_iff.mpr hp]
    cases Model.stoul (portText cs) with
    | error e => rfl
    | ok v => rfl

section Complete
variable {host port path : List Char}

/-- `[http://]host:port[/path]` -/
def complete (hasPrefix : Bool) (host port path : List Char) : List Char :=
  (if hasPrefix then httpPrefix else []) ++ (host ++ portSeparator :: (port ++ path))

structure HostText (host : List Char) : Prop where
  noPort : portSeparator ∉ host
  noPath : pathSeparator ∉ host

structure PortText (port : List Char) : Prop where
  nonempty : port ≠ []
  digits : ∀ c ∈ port, c.isDigit = true

/-- No path, or one that begins with the separator. -/
def PathText (path : List Char) : Prop := ∀ c ∈ path.head?, c = pathSeparator

theorem HostText.tail (h : HostText (c :: host)) : HostText host :=
  ⟨fun hc => h.noPort (List.mem_cons_of_mem _ hc), fun hc => h.noPath (List.mem_cons_of_mem _ hc)⟩

theorem PortText.noPath (h : PortText port) : pathSeparator ∉ port := by
  intro hmem
  exact absurd (h.digits _ hmem) (by decide)

theorem portText_decimal (n : Nat) : PortText (decimal n) :=
  ⟨Nat.toDigits_ne_nil, fun _ => decimal_isDigit⟩

theorem upTo_path (hport : PortText port) (hpath : PathText path) :
    upTo pathSeparator (port ++ path) = port := by
  cases path with
  | nil => rw [List.append_nil, upTo_of_not_mem hport.noPath]
  | cons c path =>
    obtain rfl := hpath c (by simp)
    exact upTo_append hport.noPath

theorem portText_complete (hhost : HostText host) (hport : PortText port) (hpath : PathText path) :
    portText (host ++ portSeparator :: (port ++ path)) = port := by
  rw [portText_append hhost.noPort, if_neg hhost.noPath, upTo_path hport hpath]

/-- A digit stands where the prefix has its second slash. -/
theorem prefixCheck_plain (hhost : HostText host) (hport : PortText port) (path : List Char) :
    prefixCheck (host ++ portSeparator :: (port ++ path)) = false := by
  rw [Bool.eq_false_iff]
  intro h
  obtain ⟨rest, heq⟩ := prefixCheck_iff.mp h
  have hshape : httpPrefix ++ rest =
    ['h', 't', 't', 'p'] ++ portSeparator :: pathSeparator :: pathSeparator :: rest := rfl
  have hsame : host = ['h', 't', 't', 'p'] := by
    rw [hshape] at heq
    have hup := congrArg (upTo portSeparator) heq
    rwa [upTo_append hhost.noPort, upTo_append (by decide)] at hup
  rw [hshape, hsame] at heq
  have htail := (List.cons.inj (List.append_cancel_left heq)).2
  obtain ⟨d, ds, rfl⟩ := List.exists_cons_of_ne_nil hport.nonempty
  have hd := (List.cons.inj htail).1
  exact hport.noPath (hd ▸ List.mem_cons_self)

theorem parse_plain (hhost : HostText host) (hport : PortText port) (hpath : PathText path)
    (hlen : (complete false host port path).length < npos.toNat) :
    Address.parse (String.ofList (complete false host port path)) =
      (Model.stoul port).map fun v => ⟨String.ofList host, v.setWidth 16, false⟩ := by
  have hcs : complete false host port path = host ++ portSeparator :: (port ++ path) := rfl
  have hcheck := prefixCheck_plain hhost hport path
  rw [hcs] at hlen ⊢
  have hne : host ++ portSeparator :: (port ++ path) ≠ httpPrefix := by
    intro heq
    rw [heq] at hcheck
    cases hcheck
  rw [parse_eq (by rwa [String.toList_ofList]), String.toList_ofList, if_neg hne, urlOf, hcheck]
  simp only [Bool.false_eq_true, ↓reduceIte, portText_complete hhost hport hpath,
    upTo_append hhost.noPort]

/-- With the prefix, the host's first character is lost. -/
theorem parse_prefixed (hhost : HostText (c :: host)) (hport : PortText port)
    (hpath : PathText path) (hlen : (complete true (c :: host) port path).length < npos.toNat) :
    Address.parse (String.ofList (complete true (c :: host) port path)) =
      (Model.stoul port).map fun v => ⟨String.ofList host, v.setWidth 16, true⟩ := by
  have hcs : complete true (c :: host) port path =
    httpPrefix ++ (c :: host ++ portSeparator :: (port ++ path)) := rfl
  have hcheck : prefixCheck (complete true (c :: host) port path) = true :=
    prefixCheck_iff.mpr ⟨_, hcs⟩
  have hne : complete true (c :: host) port path ≠ httpPrefix := by
    rw [hcs]
    simp
  have hurl : urlOf (complete true (c :: host) port path) =
      host ++ portSeparator :: (port ++ path) := by
    rw [urlOf, if_pos hcheck]
    rfl
  rw [parse_eq (by rwa [String.toList_ofList]), String.toList_ofList, if_neg hne, hurl, hcheck]
  simp only [portText_complete hhost.tail hport hpath, upTo_append hhost.tail.noPort]

end Complete

/-- No `std::string` is longer, under any `max_size()`. -/
def maxSize : Nat := 2^63 - 1

section RoundTrip
variable {hasPrefix : Bool} {host path : List Char} {port : BitVec 16} {a : Address}

theorem stoul_port (port : BitVec 16) :
    Model.stoul (decimal port.toNat) = .ok (BitVec.ofNat 64 port.toNat) := by
  have htext := portText_decimal port.toNat
  have hvalue : Nat.ofDigitChars 10 (decimal port.toNat) 0 = port.toNat := by simp [decimal]
  have hrange : Nat.ofDigitChars 10 (decimal port.toNat) 0 < 2^64 := by
    rw [hvalue]
    exact Nat.lt_of_lt_of_le port.isLt (by decide)
  rw [Model.stoul, stoul_digits htext.nonempty htext.digits hrange, hvalue]

theorem setWidth_port (port : BitVec 16) : (BitVec.ofNat 64 port.toNat).setWidth 16 = port := by
  apply BitVec.eq_of_toNat_eq
  rw [BitVec.toNat_setWidth, BitVec.toNat_ofNat]
  have := port.isLt
  omega

theorem getUrl_plain (host : List Char) (port : BitVec 16) :
    (Address.mk (String.ofList host) port false).getUrl =
      String.ofList (complete true host (decimal port.toNat) [pathSeparator]) := by
  simp [Address.getUrl, complete]

theorem getUrl_prefixed (host : List Char) (port : BitVec 16) :
    (Address.mk (String.ofList host) port true).getUrl =
      String.ofList (complete false host (decimal port.toNat) [pathSeparator]) := by
  simp [Address.getUrl, complete]

structure Names (a : Address) (host : List Char) (num : BitVec 16) : Prop where
  address : a.address = String.ofList host
  port : a.port = num
  url : a.getUrl = String.ofList (complete true host (decimal num.toNat) [pathSeparator])

def ReadsBack (a : Address) : Prop :=
  ∃ b, Address.parse a.getUrl = .ok b ∧ b.address = a.address ∧ b.port = a.port ∧ b.getUrl = a.getUrl

theorem length_complete (hasPrefix : Bool) (host port path : List Char) :
    (complete hasPrefix host port path).length =
      (if hasPrefix then 7 else 0) + host.length + 1 + port.length + path.length := by
  cases hasPrefix <;> simp [complete, httpPrefix] <;> omega

theorem parse_port_plain (hhost : HostText host) (hpath : PathText path)
    (hlen : (complete false host (decimal port.toNat) path).length < npos.toNat) :
    Address.parse (String.ofList (complete false host (decimal port.toNat) path)) =
      .ok ⟨String.ofList host, port, false⟩ := by
  rw [parse_plain hhost (portText_decimal _) hpath hlen, stoul_port]
  exact congrArg (fun p => Except.ok (Address.mk _ p false)) (setWidth_port port)

theorem parse_port_prefixed (hhost : HostText (c :: host)) (hpath : PathText path)
    (hlen : (complete true (c :: host) (decimal port.toNat) path).length < npos.toNat) :
    Address.parse (String.ofList (complete true (c :: host) (decimal port.toNat) path)) =
      .ok ⟨String.ofList host, port, true⟩ := by
  rw [parse_prefixed hhost (portText_decimal _) hpath hlen, stoul_port]
  exact congrArg (fun p => Except.ok (Address.mk _ p true)) (setWidth_port port)

theorem pathText_separator : PathText [pathSeparator] := by simp [PathText]

/-- The URL of an address without the prefix has it, so that a character is lost. -/
theorem not_readsBack_plain (hhost : HostText (c :: host))
    (hlen : (complete true (c :: host) (decimal port.toNat) [pathSeparator]).length < npos.toNat) :
    ¬ ReadsBack ⟨String.ofList (c :: host), port, false⟩ := by
  intro h
  obtain ⟨b, hb, haddress, _⟩ := h
  rw [getUrl_plain, parse_port_prefixed hhost pathText_separator hlen] at hb
  cases hb
  have hlist := congrArg List.length (String.ofList_injective haddress)
  simp at hlist

/-- The URL of an address with the prefix does not have it, and gets it then. -/
theorem not_readsBack_prefixed (hhost : HostText host)
    (hlen : (complete false host (decimal port.toNat) [pathSeparator]).length < npos.toNat) :
    ¬ ReadsBack ⟨String.ofList host, port, true⟩ := by
  intro h
  obtain ⟨b, hb, _, _, hurl⟩ := h
  rw [getUrl_prefixed, parse_port_plain hhost pathText_separator hlen] at hb
  cases hb
  rw [getUrl_plain, getUrl_prefixed] at hurl
  have hlist := congrArg List.length (String.ofList_injective hurl)
  rw [length_complete, length_complete] at hlist
  simp at hlist

theorem parse_complete (hhost : HostText (c :: host)) (hpath : PathText path)
    (hlen : (complete hasPrefix (c :: host) (decimal port.toNat) path).length < npos.toNat) :
    Address.parse (String.ofList (complete hasPrefix (c :: host) (decimal port.toNat) path)) =
      .ok ⟨String.ofList (if hasPrefix then host else c :: host), port, hasPrefix⟩ := by
  cases hasPrefix with
  | false => exact parse_port_plain hhost hpath hlen
  | true => exact parse_port_prefixed hhost hpath hlen

theorem ofParts_eq (hhost : HostText host) (port : BitVec 16) :
    Address.ofParts (String.ofList host) port = ⟨String.ofList host, port, false⟩ := by
  have hcheck : prefixCheck host = false := by
    rw [Bool.eq_false_iff]
    intro h
    obtain ⟨rest, rfl⟩ := prefixCheck_iff.mp h
    exact hhost.noPort (List.mem_append_left _ (by decide))
  have hflag := Address.ofParts_hasHttpPrefix (String.ofList host) port
  rw [String.toList_ofList, hcheck] at hflag
  exact congrArg (Address.mk _ port) hflag

/-- A complete address is read as written when it comes without the prefix, and no
address is read back from its URL. -/
theorem reads_as_written_iff (hne : host ≠ []) (hhost : HostText host) (hpath : PathText path)
    (hlen : (complete hasPrefix host (decimal port.toNat) path).length ≤ maxSize) :
    ((∃ a, Address.parse (String.ofList (complete hasPrefix host (decimal port.toNat) path)) = .ok a ∧
        Names a host port) ↔ hasPrefix = false) ∧
    ∀ a, Address.parse (String.ofList (complete hasPrefix host (decimal port.toNat) path)) = .ok a ∨
      a = Address.ofParts (String.ofList host) port → ¬ ReadsBack a := by
  obtain ⟨c, host, rfl⟩ := List.exists_cons_of_ne_nil hne
  have hnpos : maxSize + 8 < npos.toNat := by decide
  have hurl : (complete true (c :: host) (decimal port.toNat) [pathSeparator]).length < npos.toNat := by
    rw [length_complete] at hlen ⊢
    simp only [↓reduceIte, List.length_cons, List.length_nil] at hlen ⊢
    omega
  rw [parse_complete hhost hpath (by omega)]
  refine ⟨⟨fun h => ?_, fun h => ?_⟩, fun a h => ?_⟩
  · obtain ⟨a, ha, hnames⟩ := h
    cases ha
    cases hasPrefix with
    | false => rfl
    | true =>
      have hlist := congrArg List.length (String.ofList_injective hnames.address)
      simp at hlist
  · subst h
    exact ⟨_, rfl, rfl, rfl, getUrl_plain _ _⟩
  · rcases h with heq | rfl
    · cases heq
      cases hasPrefix with
      | false => exact not_readsBack_plain hhost hurl
      | true =>
        refine not_readsBack_prefixed hhost.tail ?_
        rw [length_complete] at hurl ⊢
        simp only [↓reduceIte, List.length_cons, List.length_nil, Bool.false_eq_true] at hurl ⊢
        omega
    · rw [ofParts_eq hhost]
      exact not_readsBack_plain hhost hurl

theorem reads_as_written_plain :
    (∃ a, Address.parse (String.ofList
        (complete false ['l', 'b'] (decimal (80 : BitVec 16).toNat) [pathSeparator])) = .ok a ∧
      Names a ['l', 'b'] 80) ∧
    ¬ ReadsBack (Address.ofParts (String.ofList ['l', 'b']) 80) := by
  have h := @reads_as_written_iff false ['l', 'b'] [pathSeparator] 80 (by decide)
    ⟨by decide, by decide⟩ pathText_separator (by decide)
  exact ⟨h.1.mpr rfl, h.2 _ (Or.inr rfl)⟩

/-- With the prefix the host's first digit is lost, and the URL goes without the prefix. -/
theorem first_digit_lost :
    Address.parse "http://10.0.0.1:80" = .ok ⟨"0.0.0.1", 80, true⟩ ∧
    (Address.mk "0.0.0.1" 80 true).getUrl = "0.0.0.1:80/" ∧
    ¬ ∃ a, Address.parse "http://10.0.0.1:80" = .ok a ∧ Names a "10.0.0.1".toList 80 := by
  have hparse : Address.parse "http://10.0.0.1:80" = .ok ⟨"0.0.0.1", 80, true⟩ := by decide
  refine ⟨hparse, by decide, fun h => ?_⟩
  obtain ⟨a, ha, hnames⟩ := h
  rw [hparse] at ha
  cases ha
  exact absurd hnames.address (by decide)

end RoundTrip

section Format
variable {s : String} {n : Nat}

/-- The string is `[http://]host:port[/path]`, and `n` is the port written in it. -/
def Written (s : String) (n : Nat) : Prop :=
  ∃ hasPrefix host port path, host ≠ [] ∧ HostText host ∧ PortText port ∧ PathText path ∧
    Nat.ofDigitChars 10 port 0 = n ∧ s = String.ofList (complete hasPrefix host port path)

/-- What the parser promises of a string: the format alone is accepted, and no
other port is read than the one written. -/
structure Exact (s : String) : Prop where
  accepts : (∃ a, Address.parse s = .ok a) ↔ ∃ n ≤ 65535, Written s n
  port : ∀ a n, Address.parse s = .ok a → Written s n → a.port.toNat = n

/-- The text that is converted to the port; the bare prefix does not get so far. -/
def converted (s : String) : Option (List Char) :=
  if s.toList = httpPrefix then none else some (portText (urlOf s.toList))

def withoutPrefix (cs : List Char) : List Char :=
  if prefixCheck cs then cs.drop httpPrefix.length else cs

structure Shaped (url : List Char) : Prop where
  separated : portSeparator ∈ url
  nonempty : upTo portSeparator url ≠ []
  noPath : pathSeparator ∉ upTo portSeparator url
  port : PortText (portText url)

theorem parse_ok_iff (h : s.toList.length < npos.toNat) :
    (∃ a, Address.parse s = .ok a) ↔ ∃ text ∈ converted s, BeginsWithNumber text := by
  rw [parse_eq h]
  unfold converted
  split
  · simp
  · simp only [Option.mem_some_iff, exists_eq_left', ← stoul_ok_iff, Model.stoul]
    cases hv : Lib.Text.stoul (portText (urlOf s.toList)) with
    | ok v => simp [Except.map]
    | error e => cases e <;> simp [Except.map]

theorem withoutPrefix_complete {host port path : List Char} (hhost : HostText host)
    (hport : PortText port) (hasPrefix : Bool) :
    withoutPrefix (complete hasPrefix host port path) = host ++ portSeparator :: (port ++ path) := by
  cases hasPrefix with
  | false =>
    have hcheck := prefixCheck_plain hhost hport path
    exact if_neg (by rw [Bool.not_eq_true]; exact hcheck)
  | true => exact if_pos (prefixCheck_iff.mpr ⟨_, rfl⟩)

theorem written_iff : Written s n ↔ Shaped (withoutPrefix s.toList) ∧
    Nat.ofDigitChars 10 (portText (withoutPrefix s.toList)) 0 = n := by
  constructor
  · intro h
    obtain ⟨hasPrefix, host, port, path, hne, hhost, hport, hpath, hn, rfl⟩ := h
    have hup := upTo_append (b := port ++ path) hhost.noPort
    rw [String.toList_ofList, withoutPrefix_complete hhost hport,
      portText_complete hhost hport hpath]
    refine ⟨⟨by simp, ?_, ?_, ?_⟩, hn⟩
    · rwa [hup]
    · rw [hup]
      exact hhost.noPath
    · rwa [portText_complete hhost hport hpath]
  · intro h
    obtain ⟨⟨hseparated, hne, hnoPath, hport⟩, hn⟩ := h
    obtain ⟨host, rest, hurl, hhost⟩ := List.eq_append_cons_of_mem hseparated
    rw [hurl, upTo_append hhost] at hne hnoPath
    rw [hurl, portText_append hhost, if_neg hnoPath] at hport hn
    have hrest : upTo pathSeparator rest ++ rest.dropWhile (· ≠ pathSeparator) = rest :=
      List.takeWhile_append_dropWhile
    refine ⟨prefixCheck s.toList, host, _, rest.dropWhile (· ≠ pathSeparator), hne,
      ⟨hhost, hnoPath⟩, hport, ?_, hn, ?_⟩
    · intro c hc
      have hhead := List.head?_dropWhile_not (· ≠ pathSeparator) rest
      rw [Option.mem_def.mp hc] at hhead
      simpa using hhead
    · rw [complete, hrest, ← hurl, ← String.toList_inj, String.toList_ofList, withoutPrefix]
      split
      · rename_i hcheck
        obtain ⟨rest, hcs⟩ := prefixCheck_iff.mp hcheck
        rw [hcs, List.drop_left]
      · rfl

/-- What is written like an address is accepted, with the port's low half. -/
theorem parse_written (hw : Written s n) (hlen : s.toList.length < npos.toNat) (hn : n < 2^64) :
    ∃ a, Address.parse s = .ok a ∧ a.port = BitVec.ofNat 16 n := by
  obtain ⟨hasPrefix, host, port, path, hne, hhost, hport, hpath, rfl, rfl⟩ := hw
  rw [String.toList_ofList] at hlen
  obtain ⟨c, host, rfl⟩ := List.exists_cons_of_ne_nil hne
  have hvalue : Model.stoul port = .ok (BitVec.ofNat 64 (Nat.ofDigitChars 10 port 0)) := by
    rw [Model.stoul, stoul_digits hport.nonempty hport.digits hn]
  have hwidth : (BitVec.ofNat 64 (Nat.ofDigitChars 10 port 0)).setWidth 16 =
      BitVec.ofNat 16 (Nat.ofDigitChars 10 port 0) := by
    apply BitVec.eq_of_toNat_eq
    rw [BitVec.toNat_setWidth, BitVec.toNat_ofNat, BitVec.toNat_ofNat]
    omega
  cases hasPrefix with
  | false =>
    rw [parse_plain hhost hport hpath hlen, hvalue]
    exact ⟨_, rfl, hwidth⟩
  | true =>
    rw [parse_prefixed hhost hport hpath hlen, hvalue]
    exact ⟨_, rfl, hwidth⟩

/-- The parser keeps its promise for a string whose converted text does not begin
with a number, and for one that has the format, with a port in range. -/
theorem reads_exactly_iff (hlen : s.toList.length ≤ maxSize) : Exact s ↔
    (∀ text ∈ converted s, ¬ BeginsWithNumber text) ∨
    (Shaped (withoutPrefix s.toList) ∧
      Nat.ofDigitChars 10 (portText (withoutPrefix s.toList)) 0 ≤ 65535) := by
  have hnpos : maxSize < npos.toNat := by decide
  have hfits : s.toList.length < npos.toNat := by omega
  have hformat : (∃ n ≤ 65535, Written s n) ↔ Shaped (withoutPrefix s.toList) ∧
      Nat.ofDigitChars 10 (portText (withoutPrefix s.toList)) 0 ≤ 65535 := by
    simp only [written_iff]
    constructor
    · intro h
      obtain ⟨n, hn, hshaped, rfl⟩ := h
      exact ⟨hshaped, hn⟩
    · intro h
      exact ⟨_, h.2, h.1, rfl⟩
  have haccepts : (∃ n ≤ 65535, Written s n) → ∃ a, Address.parse s = .ok a := by
    intro h
    obtain ⟨n, hn, hw⟩ := h
    obtain ⟨a, ha, _⟩ := parse_written hw hfits (by omega)
    exact ⟨a, ha⟩
  rw [← hformat]
  constructor
  · intro h
    by_cases hnumber : ∃ text ∈ converted s, BeginsWithNumber text
    · exact .inr (h.accepts.mp ((parse_ok_iff hfits).mpr hnumber))
    · exact .inl (by simpa using hnumber)
  · intro h
    rcases h with hnone | hw
    · have hrejects : ¬ ∃ a, Address.parse s = .ok a := by
        rw [parse_ok_iff hfits]
        simpa using hnone
      exact ⟨⟨fun h => absurd h hrejects, haccepts⟩, fun a n ha _ => absurd ⟨a, ha⟩ hrejects⟩
    · refine ⟨⟨fun _ => hw, haccepts⟩, fun a n ha hn => ?_⟩
      obtain ⟨m, hm, hw⟩ := hw
      have hsame : n = m := (written_iff.mp hn).2.symm.trans (written_iff.mp hw).2
      subst hsame
      obtain ⟨b, hb, hport⟩ := parse_written hn hfits (by omega)
      rw [hb] at ha
      cases ha
      rw [hport, BitVec.toNat_ofNat, Nat.mod_eq_of_lt (by omega)]

theorem reads_exactly_plain : Exact "lb:80" ↔
    (∀ text ∈ converted "lb:80", ¬ BeginsWithNumber text) ∨
    (Shaped (withoutPrefix "lb:80".toList) ∧
      Nat.ofDigitChars 10 (portText (withoutPrefix "lb:80".toList)) 0 ≤ 65535) :=
  reads_exactly_iff (by decide)

/-- A port of 65616 is accepted and becomes 80, and a number alone is host and port. -/
theorem port_wraps :
    Address.parse "10.0.0.9:65616" = .ok ⟨"10.0.0.9", 80, false⟩ ∧
    Address.parse "8080" = .ok ⟨"8080", 8080, false⟩ ∧
    ¬ Exact "10.0.0.9:65616" ∧ ¬ Exact "8080" := by
  have hwrap : Address.parse "10.0.0.9:65616" = .ok ⟨"10.0.0.9", 80, false⟩ := by decide
  have halone : Address.parse "8080" = .ok ⟨"8080", 8080, false⟩ := by decide
  refine ⟨hwrap, halone, fun h => ?_, fun h => ?_⟩
  · obtain ⟨n, hn, hw⟩ := h.accepts.mp ⟨_, hwrap⟩
    have hvalue := (written_iff.mp hw).2
    have : Nat.ofDigitChars 10 (portText (withoutPrefix "10.0.0.9:65616".toList)) 0 = 65616 := by
      decide
    omega
  · obtain ⟨n, hn, hw⟩ := h.accepts.mp ⟨_, halone⟩
    exact absurd (written_iff.mp hw).1.separated (by decide)

end Format

end Ironhide.Proofs.Addresses
