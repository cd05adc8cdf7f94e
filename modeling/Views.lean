import Views.Cli.Run
import Views.Main
import Views.Proofs.Precedence
import Views.Proofs.Replacement
import Views.Proofs.Freshness
import Views.Proofs.History
import Views.Proofs.Isolation
import Views.Proofs.LayoutChoice
import Views.Proofs.ContentBlocks
import Views.Proofs.Warm
import Views.Proofs.Leftover
import Views.Proofs.Transparency
import Views.Proofs.Markers
import Views.Proofs.BodyAlone
import Views.Proofs.Variables
import Views.Proofs.Templates
import Views.Scope.Handles
import Views.Proofs.Registration
import Views.Proofs.ScanFlag
import Views.Proofs.PartialNames
import Views.Proofs.ShownLayout
import Views.Proofs.SharedBlocks
import Views.Proofs.Resolution
import Views.Proofs.ShownPartials
import Views.Proofs.Files.Listing
import Views.Proofs.Config.Overlay
import Views.Proofs.Yaml.Shown
import Views.Proofs.Config.Decoding
import Views.Proofs.CompileKeys
