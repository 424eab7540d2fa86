import GraphRequest.Main
import GraphRequest.Proofs.Phrase.Acceptance
import GraphRequest.Proofs.Fold.Flattening
import GraphRequest.Proofs.Request.Canonical
import GraphRequest.Proofs.Request.FirstFault
import GraphRequest.Proofs.Request.Legibility
import GraphRequest.Proofs.Request.Variables
import GraphRequest.Proofs.Request.Filters
import GraphRequest.Proofs.Fold.Reporting
import GraphRequest.Proofs.Pairs.Agreement
import GraphRequest.Proofs.Fold.Independence
import GraphRequest.Proofs.Fold.Growth
import GraphRequest.Proofs.Fold.Absorption
import GraphRequest.Proofs.Fold.Pruning
import GraphRequest.Proofs.Fold.Renaming
import GraphRequest.Proofs.Diagnosis.Soundness
import GraphRequest.Proofs.Fold.Identity
import GraphRequest.Proofs.Request.Spacing
import GraphRequest.Proofs.Request.Transparency
import GraphRequest.Proofs.Request.Scope
import GraphRequest.Proofs.Request.EdgeBinding
import GraphRequest.Proofs.Request.Outline
import GraphRequest.Proofs.Request.Notices
import GraphRequest.Proofs.Fold.Consistency
import GraphRequest.Proofs.Request.Paths
import GraphRequest.Proofs.Fold.Reading
