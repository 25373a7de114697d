import Ironhide.Model.Main
import Mathlib.Data.List.Induction

namespace Ironhide.Proofs.CommandLine
open Model Lib.Bytes Lib.Text Lib.GetOpt PacketUtils Main

inductive Which where
  | internal
  | external
  deriving DecidableEq, Repr

def Which.letter : Which → Char
  | .internal => 'i'
  | .external => 'o'

inductive Choice where
  | egress
  | port (which : Which) (optarg : List Char)
  deriving DecidableEq, Repr

def Choice.found : Choice → Found
  | .egress => .option 'e' none
  | .port which optarg => .option which.letter (some optarg)

/-- The command lines that say something: letters without an argument may stand
together, in front of one with an argument too; the argument is the rest of the
element or the whole next one. -/
inductive Spelled (permutes : Bool) : List Choice → List (List Char) → Prop where
  | nil : Spelled permutes [] []
  | dashes (args : List (List Char)) : Spelled permutes [] (['-', '-'] :: args)
  | operand {choices : List Choice} {arg : List Char} {args : List (List Char)} :
    permutes = true → Operand arg → Spelled permutes choices args →
    Spelled permutes choices (arg :: args)
  | stop {arg : List Char} (args : List (List Char)) :
    permutes = false → Operand arg → Spelled permutes [] (arg :: args)
  | flags (n : Nat) {choices : List Choice} {args : List (List Char)} :
    Spelled permutes choices args →
    Spelled permutes (List.replicate (n + 1) .egress ++ choices)
      (('-' :: List.replicate (n + 1) 'e') :: args)
  | joined (n : Nat) (which : Which) {optarg : List Char} {choices : List Choice}
    {args : List (List Char)} : optarg ≠ [] → Spelled permutes choices args →
    Spelled permutes (List.replicate n .egress ++ .port which optarg :: choices)
      (('-' :: (List.replicate n 'e' ++ which.letter :: optarg)) :: args)
  | separate (n : Nat) (which : Which) (optarg : List Char) {choices : List Choice}
    {args : List (List Char)} : Spelled permutes choices args →
    Spelled permutes (List.replicate n .egress ++ .port which optarg :: choices)
      (('-' :: (List.replicate n 'e' ++ [which.letter])) :: optarg :: args)

section GetOpt
variable {permutes : Bool} {choices : List Choice} {args : List (List Char)}

theorem optstring_letter (which : Which) : optstring which.letter = some true := by
  cases which <;> rfl

theorem optstring_flag : optstring 'e' = some false := rfl

/-- The letters of an element begin with an `e` or with that of a port. -/
theorem letters_ne (n : Nat) (which : Which) (cs : List Char) :
    List.replicate n 'e' ++ which.letter :: cs ≠ [] ∧
    List.replicate n 'e' ++ which.letter :: cs ≠ ['-'] := by
  cases n with
  | zero => cases which <;> simp [Which.letter]
  | succ n => simp [List.replicate_succ]

theorem map_found_replicate (n : Nat) :
    (List.replicate n Choice.egress).map Choice.found = List.replicate n (.option 'e' none) :=
  List.map_replicate

/-- What is spelled is what `getopt` finds. -/
theorem Spelled.getopt_eq (h : Spelled permutes choices args) :
    getopt optstring permutes none args = choices.map Choice.found := by
  induction h with
  | nil => rfl
  | dashes args => rfl
  | operand hpermutes harg _ ih => rw [getopt_operand harg, if_pos hpermutes, ih]
  | stop args hpermutes harg =>
    rw [getopt_operand harg, hpermutes]
    rfl
  | flags n _ ih =>
    have hfound := letters_replicate optstring_flag (n + 1) []
    rw [List.append_nil] at hfound
    rw [getopt_letters (by simp) (by simp [List.replicate_succ]), hfound, List.map_append,
      map_found_replicate, letters, List.append_nil, ih]
  | joined n which hoptarg _ ih =>
    obtain ⟨hne, hdashes⟩ := letters_ne n which _
    rw [getopt_letters hne hdashes, letters_replicate rfl, letters_joined (optstring_letter which) hoptarg,
      List.map_append, map_found_replicate, ih, List.append_assoc]
    rfl
  | separate n which optarg _ ih =>
    obtain ⟨hne, hdashes⟩ := letters_ne n which []
    rw [getopt_letters hne hdashes, letters_replicate rfl, letters_wanting (optstring_letter which),
      List.map_append, map_found_replicate, List.append_nil, getopt, ih]
    rfl

def Accepted (f : Found) : Prop := f ≠ .unrecognized ∧ ∀ optarg, f ≠ .option 'h' optarg

theorem optstring_cases (c : Char) :
    c = 'e' ∨ (∃ which : Which, c = which.letter) ∨ c = 'h' ∨ optstring c = none := by
  unfold optstring
  split
  · exact Or.inl rfl
  · exact Or.inr (Or.inl ⟨.internal, rfl⟩)
  · exact Or.inr (Or.inl ⟨.external, rfl⟩)
  · exact Or.inr (Or.inr (Or.inl rfl))
  · exact Or.inr (Or.inr (Or.inr rfl))

/-- The letters of an element that are all accepted. -/
theorem letters_accepted {cs : List Char} (h : ∀ f ∈ (letters optstring cs).1, Accepted f) :
    (∃ n, cs = List.replicate n 'e') ∨
    ∃ n, ∃ which : Which, ∃ optarg, cs = List.replicate n 'e' ++ which.letter :: optarg := by
  induction cs with
  | nil => exact Or.inl ⟨0, rfl⟩
  | cons c cs ih =>
    obtain rfl | ⟨which, rfl⟩ | rfl | hunknown := optstring_cases c
    · obtain ⟨n, rfl⟩ | ⟨n, which, optarg, rfl⟩ := ih fun f hf => h f (List.mem_cons_of_mem _ hf)
      · exact Or.inl ⟨n + 1, rfl⟩
      · exact Or.inr ⟨n + 1, which, optarg, rfl⟩
    · exact Or.inr ⟨0, which, cs, rfl⟩
    · exact absurd rfl ((h _ List.mem_cons_self).2 none)
    · rw [letters, hunknown] at h
      exact absurd rfl (h _ List.mem_cons_self).1

/-- Every command line that is accepted to its end says something. -/
theorem exists_spelled (args : List (List Char))
    (h : ∀ f ∈ getopt optstring permutes none args, Accepted f) :
    ∃ choices, Spelled permutes choices args := by
  induction hlength : args.length using Nat.strong_induction_on generalizing args with
  | _ length ih =>
    subst hlength
    cases args with
    | nil => exact ⟨[], .nil⟩
    | cons arg args =>
      by_cases harg : Operand arg
      · rw [getopt_operand harg] at h
        cases permutes with
        | false => exact ⟨[], .stop args rfl harg⟩
        | true =>
          obtain ⟨choices, hrest⟩ := ih _ (Nat.lt_succ_self _) args h rfl
          exact ⟨choices, .operand rfl harg hrest⟩
      · obtain ⟨c, cs, rfl⟩ : ∃ c cs, arg = '-' :: c :: cs := by simpa [Operand] using harg
        by_cases hdashes : c :: cs = ['-']
        · rw [hdashes]
          exact ⟨[], .dashes args⟩
        rw [getopt_letters (List.cons_ne_nil c cs) hdashes] at h
        have hletters := letters_accepted fun f hf => h f (List.mem_append_left _ hf)
        obtain ⟨n, hn⟩ | ⟨n, which, optarg, hn⟩ := hletters
        · obtain ⟨n, rfl⟩ : ∃ k, n = k + 1 := Nat.exists_eq_succ_of_ne_zero (by rintro rfl; cases hn)
          have hfound := letters_replicate optstring_flag (n + 1) []
          rw [List.append_nil] at hfound
          rw [hn, hfound] at h
          obtain ⟨choices, hrest⟩ := ih _ (Nat.lt_succ_self _) args
            (fun f hf => h f (List.mem_append_right _ hf)) rfl
          rw [hn]
          exact ⟨_, .flags n hrest⟩
        · rw [hn, letters_replicate rfl] at h
          rw [hn]
          by_cases hoptarg : optarg = []
          · subst hoptarg
            rw [letters_wanting (optstring_letter which)] at h
            -- the argument is the next element, which has to be there
            cases args with
            | nil => exact absurd rfl (h .unrecognized (by simp [getopt])).1
            | cons optarg args =>
              obtain ⟨choices, hrest⟩ := ih args.length (by simp only [List.length_cons]; omega) args
                (fun f hf => h f (by simp [getopt, hf])) rfl
              exact ⟨_, .separate n which optarg hrest⟩
          · rw [letters_joined (optstring_letter which) hoptarg] at h
            obtain ⟨choices, hrest⟩ := ih _ (Nat.lt_succ_self _) args
              (fun f hf => h f (List.mem_append_right _ hf)) rfl
            exact ⟨_, .joined n which hoptarg hrest⟩

end GetOpt

section Settings
variable {permutes : Bool} {choices : List Choice} {s s' : Settings}

def portsOf (which : Which) (choices : List Choice) : List (List Char) :=
  choices.filterMap fun
    | .egress => none
    | .port which' optarg => if which' = which then some optarg else none

def lastPort (optargs : List (List Char)) (default : BitVec 16) : Except Ended (BitVec 16) :=
  (optargs.getLast?.map port).getD (.ok default)

def portOf (s : Settings) : Which → BitVec 16
  | .internal => s.intPort
  | .external => s.extPort

def withPort (s : Settings) (n : BitVec 16) : Which → Settings
  | .internal => { s with intPort := n }
  | .external => { s with extPort := n }

/-- The settings that the choices ask for: all their arguments are numbers, and of
each port the last one counts. -/
structure Settled (choices : List Choice) (s : Settings) : Prop where
  readable : ∀ which, ∀ optarg ∈ portsOf which choices, ∃ n, port optarg = .ok n
  egress : s.isEgress = true ↔ .egress ∈ choices
  ports : ∀ which, lastPort (portsOf which choices) (portOf .default which) = .ok (portOf s which)

theorem known_of_foldlM {fs : List Found} (h : fs.foldlM choose s = .ok s') :
    ∀ f ∈ fs, Accepted f := by
  induction fs generalizing s with
  | nil => simp
  | cons f fs ih =>
    rw [List.foldlM_cons] at h
    cases hf : choose s f with
    | error e =>
      rw [hf] at h
      cases h
    | ok t =>
      rw [hf] at h
      refine List.forall_mem_cons.mpr ⟨⟨?_, ?_⟩, ih h⟩
      · rintro rfl
        cases hf
      · rintro optarg rfl
        cases hf

theorem portsOf_append (which : Which) (choices : List Choice) (choice : Choice) :
    portsOf which (choices ++ [choice]) = portsOf which choices ++ portsOf which [choice] :=
  List.filterMap_append ..

theorem lastPort_append (optargs : List (List Char)) (optarg : List Char) (default : BitVec 16) :
    lastPort (optargs ++ [optarg]) default = port optarg := by
  simp [lastPort]

theorem exists_lastPort {optargs : List (List Char)} (h : ∀ optarg ∈ optargs, ∃ n, port optarg = .ok n)
    (default : BitVec 16) : ∃ n, lastPort optargs default = .ok n := by
  rw [lastPort]
  cases hlast : optargs.getLast? with
  | none => exact ⟨default, rfl⟩
  | some optarg => exact h optarg (List.mem_of_getLast? hlast)

theorem foldlM_append_ok {fs : List Found} {f : Found} :
    (fs ++ [f]).foldlM choose s = .ok s' ↔ ∃ t, fs.foldlM choose s = .ok t ∧ choose t f = .ok s' := by
  rw [List.foldlM_append]
  cases hfs : fs.foldlM choose s with
  | error e => exact ⟨fun h => (by cases h), fun h => (by obtain ⟨t, ht, _⟩ := h; cases ht)⟩
  | ok t =>
    have hlast : ([f].foldlM choose t : Except Ended Settings) = choose t f := by
      rw [List.foldlM_cons]
      cases choose t f <;> rfl
    change [f].foldlM choose t = .ok s' ↔ _
    rw [hlast]
    constructor
    · exact fun h => ⟨t, rfl, h⟩
    · rintro ⟨t', ht, h⟩
      cases ht
      exact h

theorem portOf_withPort (s : Settings) (n : BitVec 16) (which : Which) :
    portOf (withPort s n which) which = n := by
  cases which <;> rfl

theorem portOf_withPort_of_ne (s : Settings) (n : BitVec 16) {which which' : Which}
    (h : which ≠ which') : portOf (withPort s n which) which' = portOf s which' := by
  cases which <;> cases which' <;> first | rfl | exact absurd rfl h

theorem withPort_isEgress (s : Settings) (n : BitVec 16) (which : Which) :
    (withPort s n which).isEgress = s.isEgress := by
  cases which <;> rfl

theorem withPort_portOf (s : Settings) (n : BitVec 16) (which : Which) :
    withPort (withPort s n which) (portOf s which) which = s := by
  cases which <;> rfl

theorem choose_port {t : Settings} {which : Which} {optarg : List Char} :
    choose t (.option which.letter (some optarg)) = .ok s ↔
      ∃ n, port optarg = .ok n ∧ s = withPort t n which := by
  have hchoose : choose t (.option which.letter (some optarg)) =
      port optarg >>= fun n => .ok (withPort t n which) := by
    cases which <;> rfl
  rw [hchoose]
  cases port optarg with
  | error e => exact ⟨fun h => (by cases h), fun h => (by obtain ⟨n, hn, _⟩ := h; cases hn)⟩
  | ok n =>
    constructor
    · rintro ⟨⟩
      exact ⟨n, rfl, rfl⟩
    · rintro ⟨n', hn, rfl⟩
      cases hn
      rfl

theorem settled_egress :
    Settled (choices ++ [.egress]) s ↔ ∃ t, Settled choices t ∧ { t with isEgress := true } = s := by
  have hports (which : Which) : portsOf which (choices ++ [.egress]) = portsOf which choices := by
    rw [portsOf_append]
    exact List.append_nil _
  constructor
  · intro h
    refine ⟨{ s with isEgress := decide (.egress ∈ choices) }, ⟨fun which => ?_, by simp, fun which => ?_⟩, ?_⟩
    · rw [← hports]
      exact h.readable which
    · rw [← hports, h.ports]
      cases which <;> rfl
    · have hegress := h.egress.mpr (by simp)
      rw [← hegress]
  · rintro ⟨t, h, rfl⟩
    refine ⟨fun which => ?_, by simp, fun which => ?_⟩
    · rw [hports]
      exact h.readable which
    · rw [hports, h.ports]
      cases which <;> rfl

theorem portsOf_same (which : Which) (optarg : List Char) :
    portsOf which (choices ++ [.port which optarg]) = portsOf which choices ++ [optarg] := by
  simp [portsOf]

theorem portsOf_other {which which' : Which} (hne : which' ≠ which) (optarg : List Char) :
    portsOf which (choices ++ [.port which' optarg]) = portsOf which choices := by
  simp [portsOf, hne]

/-- All arguments are numbers when those before are and the last one is. -/
theorem readable_append {which : Which} {optarg : List Char} :
    (∀ which', ∀ a ∈ portsOf which' (choices ++ [.port which optarg]), ∃ n, port a = .ok n) ↔
      (∀ which', ∀ a ∈ portsOf which' choices, ∃ n, port a = .ok n) ∧ ∃ n, port optarg = .ok n := by
  constructor
  · intro h
    refine ⟨fun which' a ha => h which' a ?_, h which optarg ?_⟩
    · rw [portsOf_append]
      exact List.mem_append_left _ ha
    · rw [portsOf_same]
      simp
  · rintro ⟨h, hoptarg⟩ which' a ha
    by_cases hne : which = which'
    · subst hne
      rw [portsOf_same] at ha
      rcases List.mem_append.mp ha with ha | ha
      · exact h _ a ha
      · cases List.mem_singleton.mp ha
        exact hoptarg
    · rw [portsOf_other hne] at ha
      exact h which' a ha

theorem settled_port {which : Which} {optarg : List Char} :
    Settled (choices ++ [.port which optarg]) s ↔
      ∃ t, Settled choices t ∧ ∃ n, port optarg = .ok n ∧ s = withPort t n which := by
  constructor
  · intro h
    obtain ⟨hreadable, n, hn⟩ := readable_append.mp h.readable
    obtain ⟨before, hbefore⟩ := exists_lastPort (hreadable which) (portOf .default which)
    have hlast := h.ports which
    rw [portsOf_same, lastPort_append, hn] at hlast
    cases hlast
    refine ⟨withPort s before which, ⟨hreadable, ?_, fun which' => ?_⟩, _, hn, ?_⟩
    · rw [withPort_isEgress]
      simpa using h.egress
    · by_cases hne : which = which'
      · subst hne
        rw [portOf_withPort]
        exact hbefore
      · rw [portOf_withPort_of_ne _ _ hne, ← h.ports, portsOf_other hne]
    · exact (withPort_portOf s before which).symm
  · rintro ⟨t, h, n, hn, rfl⟩
    refine ⟨readable_append.mpr ⟨h.readable, n, hn⟩, ?_, fun which' => ?_⟩
    · rw [withPort_isEgress]
      simpa using h.egress
    · by_cases hne : which = which'
      · subst hne
        rw [portsOf_same, lastPort_append, portOf_withPort]
        exact hn
      · rw [portsOf_other hne, portOf_withPort_of_ne _ _ hne]
        exact h.ports which'

/-- One more choice. -/
theorem settled_append {choice : Choice} :
    Settled (choices ++ [choice]) s ↔ ∃ t, Settled choices t ∧ choose t choice.found = .ok s := by
  match choice with
  | .egress =>
    rw [settled_egress]
    exact exists_congr fun t => and_congr_right' (by simp [Choice.found, choose])
  | .port which optarg =>
    rw [settled_port]
    exact exists_congr fun t => and_congr_right' choose_port.symm

theorem settled_iff : (choices.map Choice.found).foldlM choose .default = .ok s ↔ Settled choices s := by
  induction choices using List.reverseRecOn generalizing s with
  | nil =>
    constructor
    · rintro ⟨⟩
      exact ⟨fun _ _ h => (by cases h), by simp [Settings.default], fun _ => rfl⟩
    · intro h
      obtain ⟨extPort, intPort, isEgress⟩ := s
      cases h.ports .internal
      cases h.ports .external
      cases isEgress with
      | false => rfl
      | true => exact absurd (h.egress.mp rfl) (by simp)
  | append_singleton choices choice ih =>
    rw [List.map_append, List.map_singleton, foldlM_append_ok, settled_append]
    exact exists_congr fun t => and_congr_left' ih

/-- The address of an interface of IPv4 whose name begins with `eth0`. -/
def eth0Of (ifa : Ifaddrs) : Option (BitVec 32) :=
  match ifa.ifaAddr with
  | some (.inet sinAddr) => if ifa.ifaName.take 4 = ['e', 't', 'h', '0'] then some sinAddr else none
  | _ => none

def lastEth0 (ifAddrStruct : List Ifaddrs) : Option (BitVec 32) :=
  (ifAddrStruct.filterMap eth0Of).getLast?

theorem retrieveIpStep_eq (myIp : String) (ifa : Ifaddrs) :
    retrieveIpStep myIp ifa = ((eth0Of ifa).map intToIp).getD myIp := by
  obtain ⟨name, address⟩ := ifa
  match address with
  | none => rfl
  | some (.other family) => rfl
  | some (.inet sinAddr) =>
    simp only [retrieveIpStep, eth0Of]
    split <;> rfl

theorem retrieveIp_eq (ifAddrStruct : List Ifaddrs) :
    retrieveIp ifAddrStruct = ((lastEth0 ifAddrStruct).map intToIp).getD "" := by
  induction ifAddrStruct using List.reverseRecOn with
  | nil => rfl
  | append_singleton ifas ifa ih =>
    rw [retrieveIp, List.foldl_append, ← retrieveIp, ih, List.foldl_cons, List.foldl_nil,
      retrieveIpStep_eq, lastEth0, lastEth0, List.filterMap_append]
    cases hifa : eth0Of ifa with
    | none =>
      have hnone : [ifa].filterMap eth0Of = [] := by simp [hifa]
      rw [hnone, List.append_nil]
      rfl
    | some sinAddr =>
      have hlast : [ifa].filterMap eth0Of = [sinAddr] := by simp [hifa]
      rw [hlast, List.getLast?_concat]
      rfl

theorem configure_iff {permutes : Bool} {argv : List (List Char)} :
    configure permutes argv = .ok s ↔ ∃ choices, Spelled permutes choices argv ∧ Settled choices s := by
  constructor
  · intro h
    obtain ⟨choices, hspelled⟩ := exists_spelled argv (known_of_foldlM h)
    refine ⟨choices, hspelled, settled_iff.mp ?_⟩
    rw [← hspelled.getopt_eq]
    exact h
  · rintro ⟨choices, hspelled, hsettled⟩
    rw [configure, hspelled.getopt_eq]
    exact settled_iff.mpr hsettled

/-- `main` starts an endpoint exactly when the command line spells choices whose
ports are numbers and the address of roulette can be read. The endpoint has the
ports chosen last, modulo 2^16, or the defaults, it is an egress when that was
chosen at all, and it has the address of the last `eth0`. -/
theorem starts_iff (permutes : Bool) (argv : List (List Char)) (rouletteService : Option String)
    (ifAddrStruct : List Ifaddrs) (started : Started) :
    main permutes argv rouletteService ifAddrStruct = .ok started ↔
      (∃ choices, Spelled permutes choices argv ∧ Settled choices started.settings) ∧
      remote rouletteService = .ok started.roulette ∧
      started.myIp = ((lastEth0 ifAddrStruct).map intToIp).getD "" := by
  rw [← configure_iff, ← retrieveIp_eq, main]
  obtain ⟨settings, myIp, roulette⟩ := started
  cases configure permutes argv with
  | error e => exact ⟨fun h => (by cases h), fun h => (by cases h.1)⟩
  | ok s =>
    cases remote rouletteService with
    | error e => exact ⟨fun h => (by cases h), fun h => (by cases h.2.1)⟩
    | ok address =>
      constructor
      · rintro ⟨⟩
        exact ⟨rfl, rfl, rfl⟩
      · rintro ⟨⟨⟩, ⟨⟩, rfl⟩
        rfl

end Settings

end Ironhide.Proofs.CommandLine
