import ProductLock.Proofs.CommandLine.Decision
import ProductLock.Proofs.Lockfile.Modes

namespace ProductLock

open Plan ProductLock.Tree

variable {t t' : Tree}

namespace Lockfile

variable {path : Path} {before after : Option String} {outcome : Outcome}

end Lockfile

namespace CommandLine

variable {services : Services} {o : ResolveOptions} {c : Config} {d : Decision}

/-- Files at the paths of a run's documents, which lie apart from each other and from the lockfile. -/
structure Beside (o : ResolveOptions) (c : Config) (files : List (Path × String)) : Prop where
  plain : ∀ f ∈ files, f.1.IsPlain
  apart : files.Pairwise fun f g => f.1.Apart g.1
  lockfile : ∀ f ∈ files, (o.lockfilePath c).Apart f.1

theorem Beside.takeWhile {files : List (Path × String)} (h : Beside o c files)
    (p : Path × String → Bool) : Beside o c (files.takeWhile p) := by
  have hsublist : (files.takeWhile p).Sublist files := List.takeWhile_sublist p
  exact ⟨fun f hf => h.plain f (hsublist.subset hf), h.apart.sublist hsublist,
    fun f hf => h.lockfile f (hsublist.subset hf)⟩

end CommandLine

end ProductLock
