import TexelFlow.Device.Engine
import TexelFlow.Main
import TexelFlow.Proofs.CommandLine.Generated
import TexelFlow.Proofs.Device.Fit
import TexelFlow.Proofs.Device.History
import TexelFlow.Proofs.Device.Nesting
import TexelFlow.Proofs.Device.Pipeline
import TexelFlow.Proofs.Device.Readback
import TexelFlow.Proofs.Device.Written
import TexelFlow.Proofs.Evaluate.Batch
import TexelFlow.Proofs.Evaluate.Broadcast
import TexelFlow.Proofs.Evaluate.Total
import TexelFlow.Proofs.Graph.WellFormed
import TexelFlow.Proofs.Operator.Join
import TexelFlow.Proofs.Operator.Positive
import TexelFlow.Proofs.Operator.Windows
import TexelFlow.Proofs.Schedule.Acceptance
import TexelFlow.Proofs.Schedule.Cycle
import TexelFlow.Proofs.Schedule.Exchange
import TexelFlow.Proofs.Schedule.References
import TexelFlow.Proofs.Schedule.Sinks
import TexelFlow.Proofs.Shader.Bias
import TexelFlow.Proofs.Shader.Compiled
import TexelFlow.Proofs.Shader.Domain
import TexelFlow.Proofs.Shader.Pairwise
import TexelFlow.Proofs.Store.Saving
import TexelFlow.Proofs.Texture.Draw
import TexelFlow.Proofs.Texture.Overflow
import TexelFlow.Proofs.Texture.Padding
import TexelFlow.Proofs.Texture.Slices
import TexelFlow.Proofs.Weight.Affine
