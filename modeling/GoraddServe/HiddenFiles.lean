import GoraddServe.FileRoutes

/-!
# Hidden files

The names that are opened are valid paths. The endings to hide are tested against the name that
is asked for only: the compressed form of a name is opened although its own name has such an
ending, and a compressed form that is asked for by its own name is opened although the name
without its suffix has one.
-/
namespace GoraddServe.HiddenFiles
open GoPaths Panics ResponseWriters StaticFiles FileRoutes

variable {ε : Type} {f : FileSystemServer} {env : Env ε} {w : Writer} {r : FileRequest} {p : Path}
  {s : Serving ε} {rt : Route}

/-- The name without a final `.br` or `.gz`. -/
def uncompressed (name : Path) : Path :=
  if brotliSuffix <:+ name ∨ gzipSuffix <:+ name then name.take (name.length - 3) else name

theorem uncompressed_append {suffix : Path} (h : suffix = brotliSuffix ∨ suffix = gzipSuffix) :
    uncompressed (p ++ suffix) = p := by
  have hlen : suffix.length = 3 := by rcases h with rfl | rfl <;> decide
  have hsuffix : brotliSuffix <:+ p ++ suffix ∨ gzipSuffix <:+ p ++ suffix := by
    rcases h with rfl | rfl
    · exact .inl (List.suffix_append p _)
    · exact .inr (List.suffix_append p _)
  rw [uncompressed, if_pos hsuffix]
  simp [hlen]

/-- The name, and the one it stands for, have no ending that is to be hidden. -/
def Shown (f : FileSystemServer) (name : Path) : Prop :=
  ∀ b ∈ f.Hide, ¬b <:+ name ∧ ¬b <:+ uncompressed name

def KeepsHidden (f : FileSystemServer) (env : Env ε) (w : Writer) (r : FileRequest)
    (s : Serving ε) : Prop :=
  ∃ names, (outcome (f.serveStaticFile env w r) s).2.opened = s.opened ++ names ∧
    ∀ name ∈ names, validPath name = true ∧ Shown f name

/-- The name that is asked for is not a compressed form of a hidden one, if it is opened itself,
and else its compressed form has no ending to be hidden. A compressed form is not opened when it
is to be decompressed and there is no temporary file. -/
def ShowsNothing (f : FileSystemServer) (env : Env ε) (p : Path) : Route → Prop
  | .plain => ∀ q, p = q ++ brotliSuffix ∨ p = q ++ gzipSuffix → ∀ b ∈ f.Hide, ¬b <:+ q
  | rt => rt.Direct ∨ env.createTemp = none → ∀ b ∈ f.Hide, ¬b <:+ rt.path p

/-- For every way that a request may take, nothing hidden is opened. -/
def HidesAll (f : FileSystemServer) (env : Env ε) (r : FileRequest) : Prop :=
  ∀ p, f.resolve r env.strs = .ok (some p) → ∀ rt, route f r p = some rt → ShowsNothing f env p rt

theorem validPath_path (hp : validPath p = true) : validPath (rt.path p) = true := by
  have hbr := validPath_append hp (s := brotliSuffix) (by decide) (by decide) (by decide)
  have hgz := validPath_append hp (s := gzipSuffix) (by decide) (by decide) (by decide)
  cases rt with
  | plain => exact hp
  | brotli | unpackBrotli => exact hbr
  | gzip | unpackGzip => exact hgz

theorem shown_plain_iff (hp : ∀ b ∈ f.Hide, ¬b <:+ p) : Shown f p ↔
    ∀ q, p = q ++ brotliSuffix ∨ p = q ++ gzipSuffix → ∀ b ∈ f.Hide, ¬b <:+ q := by
  constructor
  · intro h q hq b hb
    have huncompressed : uncompressed p = q := by
      rcases hq with rfl | rfl
      · exact uncompressed_append (.inl rfl)
      · exact uncompressed_append (.inr rfl)
    exact huncompressed ▸ (h b hb).2
  · refine fun h b hb => ⟨hp b hb, ?_⟩
    by_cases hsuffix : brotliSuffix <:+ p ∨ gzipSuffix <:+ p
    · obtain ⟨q, hq⟩ : ∃ q, p = q ++ brotliSuffix ∨ p = q ++ gzipSuffix := by
        rcases hsuffix with ⟨q, hq⟩ | ⟨q, hq⟩
        · exact ⟨q, .inl hq.symm⟩
        · exact ⟨q, .inr hq.symm⟩
      have huncompressed : uncompressed p = q := by
        rcases hq with rfl | rfl
        · exact uncompressed_append (.inl rfl)
        · exact uncompressed_append (.inr rfl)
      exact huncompressed ▸ h q hq b hb
    · rw [uncompressed, if_neg hsuffix]
      exact hp b hb

theorem shown_path_iff (hp : ∀ b ∈ f.Hide, ¬b <:+ p) : (∀ name ∈ rt.names env p, Shown f name) ↔
    ShowsNothing f env p rt := by
  have hsuffix : ∀ {suffix : Path}, suffix = brotliSuffix ∨ suffix = gzipSuffix →
      (Shown f (p ++ suffix) ↔ ∀ b ∈ f.Hide, ¬b <:+ p ++ suffix) := by
    intro suffix h
    refine ⟨fun hshown b hb => (hshown b hb).1, fun hshown b hb => ⟨hshown b hb, ?_⟩⟩
    rw [uncompressed_append h]
    exact hp b hb
  have hnames : (∀ name ∈ rt.names env p, Shown f name) ↔
      (rt.Direct ∨ env.createTemp = none → Shown f (rt.path p)) := by
    rw [Route.names]
    split
    · next h => simp [h]
    · next h => simp [h]
  rw [hnames]
  cases rt with
  | plain => exact (forall_prop_of_true (.inl trivial)).trans (shown_plain_iff hp)
  | brotli | unpackBrotli => exact imp_congr_right fun _ => hsuffix (.inl rfl)
  | gzip | unpackGzip => exact imp_congr_right fun _ => hsuffix (.inr rfl)

/-- What is opened is valid in any case, and shown under this condition and no other. -/
theorem keepsHidden_iff : KeepsHidden f env w r s ↔ HidesAll f env r := by
  have hopens : KeepsHidden f env w r s ↔
      ∀ name ∈ opens f env r, validPath name = true ∧ Shown f name := by
    constructor
    · rintro ⟨names, hopened, h⟩
      rw [opened_serveStaticFile, List.append_cancel_left_eq] at hopened
      exact hopened ▸ h
    · exact fun h => ⟨_, opened_serveStaticFile, h⟩
  rw [hopens, opens, HidesAll]
  cases hresolve : f.resolve r env.strs with
  | error panic => simp
  | ok name =>
    cases name with
    | none => simp
    | some p =>
      obtain ⟨hvalid, hhide⟩ := resolve_some hresolve
      cases hroute : route f r p with
      | none => simp [hroute]
      | some rt =>
        have hnames : ∀ name ∈ rt.names env p, validPath name = true := by
          intro name hname
          rw [Route.names] at hname
          split at hname
          · exact List.mem_singleton.mp hname ▸ validPath_path hvalid
          · cases hname
        simp only [Option.map_some, Option.getD_some, Except.ok.injEq, Option.some.injEq,
          forall_eq', hroute, ← shown_path_iff hhide]
        exact ⟨fun h name hname => (h name hname).2,
          fun h name hname => ⟨hnames name hname, h name hname⟩⟩

/-- A text file and its compressed form, with an ending to hide. -/
def hidingServer (ending : String) : FileSystemServer :=
  ⟨mapFS [(bytes "test1.txt", bytes "test"), (bytes "test1.txt.br", testBr)], false, false,
    [bytes ending]⟩

/-- The compressed form is opened for the name without its suffix, which does not have the ending;
and it is opened by its own name when the text file is to be hidden. -/
theorem hidden_file_opened :
    ¬KeepsHidden (hidingServer ".txt.br") testEnv .server (testRequest "/test1.txt" (some ["br"]))
      freshServing ∧
    ¬KeepsHidden (hidingServer ".txt") testEnv .server (testRequest "/test1.txt.br" none)
      freshServing := by
  constructor
  · rintro ⟨names, hopened, h⟩
    have hnames : (outcome ((hidingServer ".txt.br").serveStaticFile testEnv .server
        (testRequest "/test1.txt" (some ["br"]))) freshServing).2.opened =
        [] ++ [bytes "test1.txt.br"] := by decide
    obtain rfl : names = [bytes "test1.txt.br"] :=
      List.append_cancel_left (hopened.symm.trans hnames)
    have hshown := ((h _ List.mem_cons_self).2 (bytes ".txt.br") List.mem_cons_self).1
    revert hshown
    decide
  · rintro ⟨names, hopened, h⟩
    have hnames : (outcome ((hidingServer ".txt").serveStaticFile testEnv .server
        (testRequest "/test1.txt.br" none)) freshServing).2.opened =
        [] ++ [bytes "test1.txt.br"] := by decide
    obtain rfl : names = [bytes "test1.txt.br"] :=
      List.append_cancel_left (hopened.symm.trans hnames)
    have hshown := ((h _ List.mem_cons_self).2 (bytes ".txt") List.mem_cons_self).2
    revert hshown
    decide

end GoraddServe.HiddenFiles
