import ManifestLint.Main
import ManifestLint.Stream.Walk
import ManifestLint.Proofs.Command.Precedence
import ManifestLint.Proofs.Config.Shape
import ManifestLint.Proofs.Lint.Agreement
import ManifestLint.Proofs.Lint.BraceFlaws
import ManifestLint.Proofs.Lint.CodeKept
import ManifestLint.Proofs.Lint.Converged
import ManifestLint.Proofs.Lint.HeaderFlaws
import ManifestLint.Proofs.Lint.Positions
import ManifestLint.Proofs.Lint.Refusals
import ManifestLint.Proofs.Lint.Repairs
import ManifestLint.Proofs.Lint.StaleAnchors
import ManifestLint.Proofs.Rule.Registration
import ManifestLint.Proofs.Stream.Exclusive
import ManifestLint.Proofs.Stream.Walks
import ManifestLint.Proofs.Token.Comments
import ManifestLint.Proofs.Token.LongestMatch
import ManifestLint.Proofs.Token.Truncation
import ManifestLint.Proofs.Token.Unreadable
