import Mathlib.Data.List.Chain
import Mathlib.Data.List.TakeDrop
import JumpScript.Proofs.Outcomes
import JumpScript.World.Web

/-!
# Fetching through the fence

The fence looks at an address once, as it was given.  The first request leaves an empty port out,
and what stands before that can look like a port in turn; it does not if no host on the list ends
so.  From there on redirections decide which addresses are asked, and the client follows them
wherever they lead: what is asked stays on permitted hosts only as long as no answer names a host of
its own that is not one of them.  The number of requests and the size of the body are limited
whatever is answered.
-/

namespace JumpScript

namespace Address

/-- An address that does not say where it is to be found, seen from another one. -/
def IsRelative (a : Address) : Prop := a.scheme = [] ∧ a.host = [] ∧ a.user = none

/-- A relative address is found where the one is that it is seen from. -/
theorem hostname_refer_of_isRelative {a : Address} (h : a.IsRelative) (base : Address) :
    (base.refer a).hostname = base.hostname := by
  obtain ⟨hscheme, hhost, huser⟩ := h
  rw [refer, if_neg (by simp [hscheme, hhost, huser])]
  rfl

/-- A text that ends in what can be read as a port. -/
def EndsInPort (s : Bytes) : Prop :=
  ∃ h port, s = h ++ 0x3A :: port ∧ isPort (0x3A :: port) = true

theorem isDigit_of_isPort {port : Bytes} (h : isPort (0x3A :: port) = true) {b : UInt8}
    (hb : b ∈ port) : Bytes.isDigit b = true := by
  rw [isPort, Bool.and_eq_true, List.all_eq_true] at h
  exact h.2 b hb

theorem cutLast?_concat (b : UInt8) (s : Bytes) : cutLast? b (s ++ [b]) = some (s, []) := by
  simp [cutLast?, List.span_eq_takeWhile_dropWhile]

theorem eq_of_cutLast? {b : UInt8} {s x y : Bytes} (h : cutLast? b s = some (x, y)) :
    s = x ++ b :: y := by
  rw [cutLast?, List.span_eq_takeWhile_dropWhile] at h
  split at h
  · cases h
  · rename_i after c before hspan
    obtain ⟨hafter, hbefore⟩ := Prod.mk.inj hspan
    obtain ⟨rfl, rfl⟩ := Prod.mk.inj (Option.some.inj h)
    have hc : c = b := by
      have hne : s.reverse.dropWhile (· != b) ≠ [] := by simp [hbefore]
      have hhead := List.head_dropWhile_not (· != b) hne
      simpa [hbefore] using hhead
    have hsplit := List.takeWhile_append_dropWhile (p := (· != b)) (l := s.reverse)
    rw [hafter, hbefore, hc] at hsplit
    simpa using (congrArg List.reverse hsplit).symm

/-- A host with a port is that host and what follows. -/
theorem withoutPort_eq_or_endsInPort (s : Bytes) : withoutPort s = s ∨ EndsInPort s := by
  rw [withoutPort]
  split
  · rename_i h port hcut
    split
    · rename_i hport
      exact Or.inr ⟨h, port, eq_of_cutLast? hcut, hport⟩
    · exact Or.inl rfl
  · exact Or.inl rfl

theorem withoutPort_concat (s : Bytes) : withoutPort (s ++ [0x3A]) = s := by
  rw [withoutPort, cutLast?_concat]
  rfl

theorem withoutBrackets_of_endsInPort {s : Bytes} (h : EndsInPort s) : withoutBrackets s = s := by
  obtain ⟨host, port, rfl, hport⟩ := h
  have hlast : (host ++ 0x3A :: port).getLast? ≠ some 0x5D := by
    intro hlast
    rw [List.getLast?_append_of_ne_nil _ (List.cons_ne_nil _ _)] at hlast
    have hmem := List.mem_of_getLast? hlast
    rcases List.mem_cons.mp hmem with h | h
    · cases h
    · exact absurd (isDigit_of_isPort hport h) (by decide)
  rw [withoutBrackets, if_neg]
  intro hbrackets
  simp only [Bool.and_eq_true, beq_iff_eq] at hbrackets
  exact hlast hbrackets.1.2

/-- What follows a dot in a text with a port has that port. -/
theorem endsInPort_of_suffix {d s : Bytes} (h : (0x2E :: d) <:+ s) (hs : EndsInPort s) :
    EndsInPort d := by
  obtain ⟨host, port, rfl, hport⟩ := hs
  rcases List.suffix_or_suffix_of_suffix h (List.suffix_append host (0x3A :: port)) with h | h
  · -- a port has no dot
    rcases List.mem_cons.mp (h.subset List.mem_cons_self) with hdot | hdot
    · cases hdot
    · exact absurd (isDigit_of_isPort hport hdot) (by decide)
  · rcases List.suffix_cons_iff.mp h with h | ⟨host', hhost⟩
    · cases (List.cons.inj h).1
    · exact ⟨host', port, hhost.symm, hport⟩

/-- A request goes to the host of its address, unless that itself ends in what can be read as a
port. -/
theorem hostname_forRequest (a : Address) :
    a.forRequest.hostname = a.hostname ∨ EndsInPort a.hostname := by
  by_cases hcolon : [0x3A] <:+ a.host
  · obtain ⟨s, hs⟩ := hcolon
    have hrequest : a.forRequest.host = s := by
      rw [forRequest, ← hs]
      simp [Bytes.dropSuffix]
    have hhostname : a.hostname = withoutBrackets s := by
      rw [hostname, ← hs, withoutPort_concat]
    rw [hhostname, hostname, hrequest]
    rcases withoutPort_eq_or_endsInPort s with h | h
    · exact Or.inl (congrArg withoutBrackets h)
    · rw [withoutBrackets_of_endsInPort h]
      exact Or.inr h
  · refine Or.inl ?_
    have hsame : a.forRequest = a := by
      simp [forRequest, Bytes.dropSuffix, hcolon]
    rw [hsame]

end Address

namespace Web

variable {server : Server} {a b : Address} {left : Nat}

/-- An answer to one address redirects to another one by way of a third, as the answer spells it. -/
def RedirectsBy (server : Server) (l a b : Address) : Prop :=
  ∃ left r location, server left a = some r ∧ redirection? r = some location ∧
    Address.read location = .ok l ∧ b = a.refer l

/-- An answer to one address redirects to another one. -/
def Redirects (server : Server) (a b : Address) : Prop := ∃ l, RedirectsBy server l a b

/-- An answer to one address redirects to another one by an address that is not relative. -/
def LeadsAway (server : Server) (a b : Address) : Prop :=
  ∃ l, ¬ l.IsRelative ∧ RedirectsBy server l a b

theorem Redirects.hostname_eq_or_leadsAway (h : Redirects server a b) :
    b.hostname = a.hostname ∨ LeadsAway server a b := by
  obtain ⟨l, hby⟩ := h
  by_cases hl : l.IsRelative
  · obtain ⟨left, r, location, -, -, -, rfl⟩ := hby
    exact Or.inl (Address.hostname_refer_of_isRelative hl a)
  · exact Or.inr ⟨l, hl, hby⟩

/-- A client with requests to go asks nothing, one address only, or goes on from where an answer
leads. -/
theorem asked_follow_cases (server : Server) (left : Nat) (a : Address) :
    (follow server left a).1 = [] ∨ (0 < left ∧ (follow server left a).1 = [a]) ∨
      ∃ k b, left = k + 1 ∧ Redirects server a b ∧
        (follow server left a).1 = a :: (follow server k b).1 := by
  cases left with
  | zero => exact Or.inl rfl
  | succ k =>
      rw [follow]
      split
      · exact Or.inl rfl
      · split
        · exact Or.inr (Or.inl ⟨k.succ_pos, rfl⟩)
        · rename_i r hanswer
          split
          · exact Or.inr (Or.inl ⟨k.succ_pos, rfl⟩)
          · rename_i location hlocation
            split
            · exact Or.inr (Or.inl ⟨k.succ_pos, rfl⟩)
            · rename_i b hb
              obtain ⟨l, hread, rfl⟩ := Option.map_eq_some_iff.mp hb
              have hl : Address.read location = .ok l := by
                cases hlocation : Address.read location with
                | error e =>
                    rw [hlocation] at hread
                    cases hread
                | ok l' =>
                    rw [hlocation] at hread
                    obtain rfl := Option.some.inj hread
                    rfl
              refine Or.inr (Or.inr ⟨k, a.refer l, rfl, ⟨l, ?_⟩, rfl⟩)
              exact ⟨k, r, location, hanswer, hlocation, hl, rfl⟩

theorem head?_follow (server : Server) (left : Nat) (a : Address) :
    ∀ b ∈ (follow server left a).1.head?, b = a := by
  intro b hb
  rcases asked_follow_cases server left a with h | ⟨-, h⟩ | ⟨k, c, -, -, h⟩
  · rw [h] at hb
    cases hb
  · rw [h] at hb
    exact (Option.some.inj hb).symm
  · rw [h] at hb
    exact (Option.some.inj hb).symm

/-- An address with a host is asked. -/
theorem head?_follow_of_host (server : Server) (left : Nat) (h : a.host ≠ []) :
    (follow server (left + 1) a).1.head? = some a := by
  rw [follow, if_neg (by simpa using h)]
  split
  · rfl
  · split
    · rfl
    · split
      · rfl
      · rfl

theorem length_follow_le (server : Server) (left : Nat) (a : Address) :
    (follow server left a).1.length ≤ left := by
  induction left generalizing a with
  | zero => exact Nat.le_refl 0
  | succ left ih =>
      rcases asked_follow_cases server (left + 1) a with h | ⟨-, h⟩ | ⟨k, b, hk, -, h⟩
      · simp [h]
      · simp [h]
      · obtain rfl := Nat.succ.inj hk
        rw [h, List.length_cons]
        exact Nat.succ_le_succ (ih b)

/-- Each address asked is one that an answer to the address before it redirects to. -/
theorem isChain_follow (server : Server) (left : Nat) (a : Address) :
    (follow server left a).1.IsChain (Redirects server) := by
  induction left generalizing a with
  | zero => exact .nil
  | succ left ih =>
      rcases asked_follow_cases server (left + 1) a with h | ⟨-, h⟩ | ⟨k, b, hk, hredirects, h⟩
      · simp [h]
      · simp [h]
      · obtain rfl := Nat.succ.inj hk
        rw [h]
        refine .cons (ih b) ?_
        intro c hc
        obtain rfl := head?_follow server left b c hc
        exact hredirects

end Web

namespace WebFence

variable {f : WebFence} {server : Server} {a : Address} {address : Bytes}

/-- The fence lets requests out to the host of an address. -/
def Permits (f : WebFence) (a : Address) : Prop :=
  f.allows a.hostname = true ∧ (f.allowLocal = false → isLocal a.hostname = false)

theorem exists_not_permits_of_mem {as : List Address} {host : Bytes}
    (h : host ∈ as.map Address.hostname) (hhost : f.allows host = false) :
    ∃ a ∈ as, ¬ f.Permits a := by
  obtain ⟨a, ha, rfl⟩ := List.mem_map.mp h
  refine ⟨a, ha, ?_⟩
  rintro ⟨hallows, -⟩
  rw [hhost] at hallows
  cases hallows

theorem admits_eq_ok {host : Bytes} (h : f.admits host = .ok ()) :
    f.allows host = true ∧ (f.allowLocal = false → isLocal host = false) := by
  rw [admits] at h
  split at h
  · cases h
  · rename_i hallows
    split at h
    · cases h
    · rename_i hlocal
      refine ⟨by simpa using hallows, ?_⟩
      intro hnone
      simpa [hnone] using hlocal

theorem permits_of_screen (h : f.screen address = .ok a) :
    f.Permits a ∧ (a.scheme = text "http" ∨ a.scheme = text "https") := by
  rw [screen] at h
  split at h
  · cases h
  · rename_i a' hread
    split at h
    · cases h
    · rename_i hscheme
      obtain ⟨u, hadmits, rfl⟩ := map_eq_ok_iff.mp h
      refine ⟨admits_eq_ok hadmits, ?_⟩
      by_cases hhttp : a'.scheme = text "http"
      · exact Or.inl hhttp
      · exact Or.inr (by simpa [hhttp] using hscheme)

theorem length_le_of_accept {r : Response} {body : Bytes} (h : f.accept a r = .ok body) :
    (body.length : Int) ≤ f.limit := by
  rw [accept] at h
  split at h
  · cases h
  · split at h
    · cases h
    · rename_i hlength
      obtain rfl := Except.ok.inj h
      exact Int.not_lt.mp hlength

/-- Along a chain of redirections from a permitted host all hosts are permitted, unless one that is
leads away to one that is not. -/
theorem permits_or_leadsAway {as : List Address} (hchain : as.IsChain (Web.Redirects server))
    (hhead : ∀ a ∈ as.head?, f.Permits a) :
    (∀ a ∈ as, f.Permits a) ∨
      ∃ b c, [b, c] <:+: as ∧ f.Permits b ∧ ¬ f.Permits c ∧ Web.LeadsAway server b c := by
  induction as with
  | nil => exact Or.inl (by simp)
  | cons a as ih =>
      have ha : f.Permits a := hhead a rfl
      cases as with
      | nil => exact Or.inl (by simpa using ha)
      | cons b as =>
          obtain ⟨hredirects, hrest⟩ := List.isChain_cons_cons.mp hchain
          by_cases hb : f.Permits b
          · have hhead' : ∀ c ∈ (b :: as).head?, f.Permits c := by
              rintro c ⟨⟩
              exact hb
            rcases ih hrest hhead' with hall | ⟨c, d, hinfix, hc, hd, haway⟩
            · exact Or.inl (List.forall_mem_cons.mpr ⟨ha, hall⟩)
            · exact Or.inr ⟨c, d, hinfix.trans (List.suffix_cons a _).isInfix, hc, hd, haway⟩
          · rcases hredirects.hostname_eq_or_leadsAway with hhost | haway
            · rw [Permits, hhost] at hb
              exact absurd ha hb
            · exact Or.inr ⟨a, b, ⟨[], as, rfl⟩, ha, hb, haway⟩

theorem not_endsInPort_of_allows (hlist : ∀ d ∈ f.allowed, ¬ Address.EndsInPort d) {host : Bytes}
    (h : f.allows host = true) : ¬ Address.EndsInPort host := by
  obtain ⟨d, hd, hmatch⟩ := List.any_eq_true.mp h
  simp only [Bool.or_eq_true, beq_iff_eq, List.isSuffixOf_iff_suffix] at hmatch
  intro hport
  rcases hmatch with rfl | hsuffix
  · exact hlist host hd hport
  · exact hlist d hd (Address.endsInPort_of_suffix hsuffix hport)

/-- The request for a permitted address goes to a permitted host if no host on the list ends in what
can be read as a port. -/
theorem permits_forRequest (hlist : ∀ d ∈ f.allowed, ¬ Address.EndsInPort d) (h : f.Permits a) :
    f.Permits a.forRequest := by
  rcases a.hostname_forRequest with hsame | hport
  · rw [Permits, hsame]
    exact h
  · exact absurd hport (not_endsInPort_of_allows hlist h.1)

theorem ask_eq (f : WebFence) (server : Server) (address : Bytes) :
    (∃ e, f.screen address = .error e ∧ f.ask server address = ([], .error e)) ∨
      ∃ a, f.screen address = .ok a ∧
        f.ask server address = ((Web.follow server Web.redirectLimit a.forRequest).1,
          (Web.follow server Web.redirectLimit a.forRequest).2.bind (f.accept a)) := by
  rw [ask]
  cases f.screen address with
  | error e => exact Or.inl ⟨e, rfl, rfl⟩
  | ok a => exact Or.inr ⟨a, rfl, rfl⟩

/-- An address that passes is asked.  The first address asked is permitted, and so are all others
unless a permitted host redirects the client away, in words of its own, to one that is not.
Whatever is answered, no more than ten requests are sent and no body beyond the limit is let in. -/
theorem asks_permitted_until_led_away (hlist : ∀ d ∈ f.allowed, ¬ Address.EndsInPort d)
    (server : Server) (address : Bytes) :
    (∀ a, f.screen address = .ok a → a.forRequest.host ≠ [] →
        (f.ask server address).1.head? = some a.forRequest) ∧
      (∀ a ∈ (f.ask server address).1.head?,
        f.Permits a ∧ (a.scheme = text "http" ∨ a.scheme = text "https")) ∧
      ((∀ a ∈ (f.ask server address).1, f.Permits a) ∨
        ∃ b c, [b, c] <:+: (f.ask server address).1 ∧ f.Permits b ∧ ¬ f.Permits c ∧
          Web.LeadsAway server b c) ∧
      (f.ask server address).1.length ≤ 10 ∧
      ∀ body, (f.ask server address).2 = .ok body → (body.length : Int) ≤ f.limit := by
  rcases f.ask_eq server address with ⟨e, he, hask⟩ | ⟨a, ha, hask⟩
  · rw [he, hask]
    exact ⟨by simp, by simp, Or.inl (by simp), by simp, by simp⟩
  · obtain ⟨hpermits, hscheme⟩ := permits_of_screen ha
    have hfirst := permits_forRequest hlist hpermits
    have hhead := Web.head?_follow server Web.redirectLimit a.forRequest
    rw [ha, hask]
    refine ⟨?_, ?_, ?_, Web.length_follow_le server Web.redirectLimit a.forRequest, ?_⟩
    · rintro b ⟨⟩ hhost
      exact Web.head?_follow_of_host server 9 hhost
    · intro b hb
      obtain rfl := hhead b hb
      exact ⟨hfirst, hscheme⟩
    · apply permits_or_leadsAway (Web.isChain_follow server Web.redirectLimit a.forRequest)
      intro b hb
      obtain rfl := hhead b hb
      exact hfirst
    · intro body hbody
      obtain ⟨r, -, haccept⟩ := bind_eq_ok_iff.mp hbody
      exact length_le_of_accept haccept

/-- A host that is let through, and an answer of it that leads to the machine's own network. -/
def luring : Web :=
  [(text "http://a.com/",
    { status := 302, line := text "302 Found", body := [],
      location := some (text "http://127.0.0.1/admin") })]

/-- The client is led away to a host that is not on the list. -/
theorem asks_permitted_until_led_away_luring :
    (∀ d ∈ (ofHosts [text "a.com"]).allowed, ¬ Address.EndsInPort d) ∧
      ∃ b c, (ofHosts [text "a.com"]).Permits b ∧ ¬ (ofHosts [text "a.com"]).Permits c ∧
        Web.LeadsAway luring.server b c := by
  have hlist : ∀ d ∈ (ofHosts [text "a.com"]).allowed, ¬ Address.EndsInPort d := by
    rintro d hd ⟨host, port, rfl, -⟩
    have hcolon : (0x3A : UInt8) ∈ text "a.com" := by
      rw [← List.mem_singleton.mp hd]
      simp
    exact absurd hcolon (by decide)
  have hasked : text "127.0.0.1" ∈
      ((ofHosts [text "a.com"]).ask luring.server (text "http://a.com/")).1.map
        Address.hostname := by
    decide +kernel
  obtain ⟨a, ha, hforbidden⟩ := exists_not_permits_of_mem hasked
    (show (ofHosts [text "a.com"]).allows (text "127.0.0.1") = false by decide +kernel)
  obtain ⟨-, -, hall | ⟨b, c, -, hb, hc, haway⟩, -⟩ :=
    asks_permitted_until_led_away hlist luring.server (text "http://a.com/")
  · exact absurd (hall a ha) hforbidden
  · exact ⟨hlist, b, c, hb, hc, haway⟩

/-- A host that is on the list with its port is asked on the machine's own network: with an empty
port behind it, the port is taken for a part of the name until the request is made. -/
theorem not_always_permitted :
    ¬ ∀ (f : WebFence) (server : Server) (address : Bytes),
      ∀ a ∈ (f.ask server address).1, f.Permits a := by
  intro h
  have hasked : text "localhost" ∈
      ((ofHosts [text "localhost:8080"]).ask (fun _ _ => none)
        (text "http://localhost:8080:/")).1.map Address.hostname := by
    decide +kernel
  obtain ⟨a, ha, hforbidden⟩ := exists_not_permits_of_mem hasked
    (show (ofHosts [text "localhost:8080"]).allows (text "localhost") = false by decide +kernel)
  exact hforbidden (h _ _ _ a ha)

end WebFence

end JumpScript
